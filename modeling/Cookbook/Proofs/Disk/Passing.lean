import Cookbook.Proofs.Disk.Ways

/-!
The folders that paths pass, and the folders that operations make. Making folders makes those that the
path passes, so far as they are missing; the other operations make none.
-/

namespace Cookbook

/-! ## Paths above -/

namespace Path

variable {p q : Path} {pieces : List String}

theorem parts_intercalate (single : ∀ piece ∈ pieces, '/' ∉ piece.toList) :
    parts ⟨String.intercalate "/" pieces⟩ = pieces.filter (· ≠ "") := by
  induction pieces with
  | nil => exact parts_empty
  | cons piece rest ih =>
      obtain ⟨here, later⟩ := List.forall_mem_cons.mp single
      have alone : parts ⟨piece⟩ = [piece].filter (· ≠ "") := by
        rw [parts_name here]
        by_cases empty : piece = "" <;> simp [empty]
      cases rest with
      | nil => rw [String.intercalate_singleton, alone]
      | cons next rest =>
          have text : String.intercalate "/" (piece :: next :: rest) = String.ofList
              (piece.toList ++ '/' :: (String.intercalate "/" (next :: rest)).toList) := by
            rw [← String.toList_inj]
            simp
          rw [text, parts_slash, String.ofList_toList, String.ofList_toList, ih later, alone,
            ← List.filter_append, List.singleton_append]

theorem parts_ofPieces (absolute : Bool) (single : ∀ piece ∈ pieces, '/' ∉ piece.toList) :
    (ofPieces absolute pieces).parts = pieces.filter (· ≠ "") := by
  cases absolute with
  | false => simpa [ofPieces] using parts_intercalate single
  | true =>
      have text : ofPieces true pieces =
          ⟨String.ofList ([] ++ '/' :: (String.intercalate "/" pieces).toList)⟩ := by
        simp [ofPieces, ← String.toList_inj]
      rw [text, parts_slash, String.ofList_nil, parts_empty, String.ofList_toList,
        parts_intercalate single, List.nil_append]

theorem isAbsolute_ofPieces (absolute : Bool)
    (started : absolute = false → ∀ piece ∈ pieces.head?, piece ≠ "" ∧ '/' ∉ piece.toList) :
    (ofPieces absolute pieces).isAbsolute = absolute := by
  cases absolute with
  | true => 
      rw [isAbsolute_iff]
      simp [ofPieces]
  | false =>
      rw [Bool.eq_false_iff, ne_eq, isAbsolute_iff]
      cases pieces with
      | nil => simp [ofPieces]
      | cons piece rest =>
          obtain ⟨nonempty, single⟩ := started rfl piece rfl
          have some_ : piece.toList ≠ [] := by simpa using nonempty
          have text : ∃ more, (ofPieces false (piece :: rest)).text.toList = piece.toList ++ more := by
            cases rest with
            | nil => exact ⟨[], by simp [ofPieces]⟩
            | cons next rest =>
                exact ⟨'/' :: (String.intercalate "/" (next :: rest)).toList, by simp [ofPieces]⟩
          obtain ⟨more, text⟩ := text
          rw [text, List.head?_append, List.head?_eq_some_head some_, Option.some_or]
          exact fun slash => single (Option.some.inj slash ▸ List.head_mem some_)

theorem trimmedPieces_suffix (absolute : Bool) (pieces : List String) :
    piecesAbove.trimmedPieces absolute pieces <:+ pieces := by
  induction pieces with
  | nil => exact List.suffix_rfl
  | cons piece rest ih =>
      rw [piecesAbove.trimmedPieces]
      split
      · exact ih.trans (List.suffix_cons piece rest)
      · exact List.suffix_rfl

theorem piecesAbove_suffix {absolute : Bool} {up : List String}
    (member : up ∈ piecesAbove absolute pieces) : up <:+ pieces := by
  induction pieces with
  | nil => cases member
  | cons piece rest ih =>
      rw [piecesAbove] at member
      split at member
      · exact (ih member).trans (List.suffix_cons piece rest)
      · rw [List.mem_cons] at member
        cases member with
        | inl same => exact same ▸ (trimmedPieces_suffix absolute rest).trans (List.suffix_cons piece rest)
        | inr member => exact (ih member).trans (List.suffix_cons piece rest)

theorem pieces_single {piece : String} (member : piece ∈ p.pieces) : '/' ∉ piece.toList := by
  obtain ⟨field, inside, rfl⟩ := List.mem_map.mp member
  rw [String.toList_ofList]
  exact Text.notMem_of_mem_fields inside

theorem pieces_of_absolute (absolute : p.isAbsolute = true) : p.pieces = "" :: p.pieces.tail := by
  rw [isAbsolute_iff] at absolute
  obtain ⟨rest, text⟩ := List.head?_eq_some_iff.mp absolute
  rw [pieces, text, Text.fields_self]
  rfl

theorem pieces_of_relative (relative : p.isAbsolute = false) (nonempty : p.text ≠ "") :
    ∃ first rest, p.pieces = first :: rest ∧ first ≠ "" := by
  cases text : p.text.toList with
  | nil => exact absurd (by simpa using text) nonempty
  | cons c cs =>
      have other : c ≠ '/' := by
        rintro rfl
        have absolute := (isAbsolute_iff p).mpr (by rw [text]; rfl)
        rw [relative] at absolute
        cases absolute
      obtain ⟨first, rest, -, longer⟩ := Text.fields_of_ne other cs
      refine ⟨_, _, by rw [pieces, text, longer, List.map_cons], ?_⟩
      simp

theorem of_mem_above (member : q ∈ p.above) : q.isAbsolute = p.isAbsolute ∧ q.parts <+: p.parts := by
  unfold above at member
  obtain ⟨up, inside, rfl⟩ := List.mem_map.mp member
  have starts := List.reverse_prefix.mpr (piecesAbove_suffix inside)
  rw [List.reverse_reverse] at starts
  cases absolute : p.isAbsolute with
  | true =>
      rw [absolute, if_pos rfl] at starts
      have single : ∀ piece ∈ up.reverse, '/' ∉ piece.toList := fun piece member =>
        pieces_single (List.mem_of_mem_tail (starts.mem member))
      refine ⟨isAbsolute_ofPieces true (by simp), ?_⟩
      rw [parts_ofPieces true single, parts, pieces_of_absolute absolute]
      exact starts.filter _
  | false =>
      simp only [absolute, Bool.false_eq_true, if_false] at starts
      have single : ∀ piece ∈ up.reverse, '/' ∉ piece.toList := fun piece member =>
        pieces_single (starts.mem member)
      refine ⟨isAbsolute_ofPieces false ?_, ?_⟩
      · intro _ piece head
        refine ⟨?_, single piece (List.mem_of_head? head)⟩
        by_cases empty : p.text = ""
        · simp [absolute, pieces, empty, Text.fields, piecesAbove, isIdle] at inside
        · obtain ⟨first, rest, pieces, nonempty⟩ := pieces_of_relative absolute empty
          obtain ⟨more, same⟩ := starts
          obtain ⟨others, given⟩ := List.head?_eq_some_iff.mp head
          rw [given, pieces, List.cons_append] at same
          rwa [(List.cons.inj same).1]
      · rw [parts_ofPieces false single, parts]
        exact starts.filter _

end Path

/-! ## Places that paths pass -/

namespace Disk

variable {d made : Disk} {p q : Path} {place above : Location} {name : String}

/-- That a path leads to a place after some of its steps. -/
def Passes (d : Disk) (p : Path) (place : Location) : Prop :=
  ∃ steps, steps ≠ [] ∧ steps <+: p.parts ∧
    place = follow (if p.isAbsolute then [] else d.here) steps

theorem passes_place (moves : p.parts ≠ []) : d.Passes p (d.place p) :=
  ⟨_, moves, List.prefix_rfl, rfl⟩

theorem Passes.of_front (passes : d.Passes q place) (absolute : q.isAbsolute = p.isAbsolute)
    (front : q.parts <+: p.parts) : d.Passes p place := by
  obtain ⟨steps, moves, starts, rfl⟩ := passes
  exact ⟨steps, moves, starts.trans front, by rw [absolute]⟩

theorem passes_joinName (proper : ProperName name) :
    d.Passes (p.joinName name) place ↔ d.Passes p place ∨ place = d.place p ++ [name] := by
  have relative := Path.isRelative_of_proper proper
  have absolute : (p.joinName name).isAbsolute = p.isAbsolute := Path.isAbsolute_join relative
  have parts : (p.joinName name).parts = p.parts ++ [name] := by
    rw [Path.joinName, Path.parts_join relative, Path.parts_single proper]
  constructor
  · rintro ⟨steps, moves, starts, same⟩
    rw [parts, List.prefix_concat_iff] at starts
    rw [absolute] at same
    cases starts with
    | inl all => exact .inr (by rw [same, all, follow_append, follow_proper proper, Disk.place])
    | inr starts => exact .inl ⟨steps, moves, starts, same⟩
  · rintro (passes | rfl)
    · exact passes.of_front absolute.symm (parts ▸ List.prefix_append _ _)
    · exact d.place_joinName p proper ▸ passes_place (by simp [parts])

theorem not_passes_empty (empty : p.text = "") : ¬ d.Passes p place := by
  rintro ⟨steps, moves, starts, _⟩
  have nothing : p.parts = [] := by
    rw [show p = ⟨""⟩ from congrArg Path.mk empty, Path.parts_empty]
  rw [nothing, List.prefix_nil] at starts
  exact moves starts

theorem Becomes.passes {files : Location → Option FileData} (becomes : d.Becomes made files) :
    made.Passes p place ↔ d.Passes p place := by
  rw [becomes.same]
  rfl

theorem walk_passes {tree : Tree} {steps front : List String}
    (way : walk tree above steps = .ok place) (folder : tree.HasFolder place)
    (starts : front <+: steps) : tree.HasFolder (follow above.reverse front) := by
  induction steps generalizing above front with
  | nil =>
      cases way
      rwa [List.prefix_nil.mp starts]
  | cons step steps ih =>
      rw [walk] at way
      split at way
      · next still =>
          split at way
          · next content inside =>
              cases front with
              | nil => exact ⟨content, (folderIn_iff.mp inside).1⟩
              | cons _ front =>
                  obtain ⟨rfl, further⟩ := List.cons_prefix_cons.mp starts
                  have onward := ih way further
                  rw [follow]
                  simp only [Bool.or_eq_true, decide_eq_true_eq] at still
                  obtain rfl | rfl := still
                  · exact onward
                  · simpa using onward
          · cases way
      · next moves =>
          simp only [Bool.or_eq_true, decide_eq_true_eq, not_or] at moves
          cases front with
          | nil =>
              -- What the step leads to is a folder by induction, and is in the one that is asked for.
              have onward := ih way List.nil_prefix
              rw [List.reverse_cons] at onward
              exact onward.of_append
          | cons _ front =>
              obtain ⟨rfl, further⟩ := List.cons_prefix_cons.mp starts
              have onward := ih way further
              rwa [follow, if_neg moves.1, if_neg moves.2, ← List.reverse_cons]

/-- That a path passes only folders. -/
def Opens (d : Disk) (p : Path) : Prop := ∀ place, d.Passes p place → d.root.HasFolder place

theorem Leads.opens (leads : d.Leads p) : d.Opens p := by
  intro place ⟨steps, _, starts, same⟩
  have there := walk_passes leads.way leads.folder starts
  rwa [apply_ite List.reverse, List.reverse_nil, List.reverse_reverse, ← same] at there

theorem Opens.mono {files : Location → Option FileData} (opens : d.Opens p)
    (becomes : d.Becomes made files) (keeps : d.KeepsFolders made) : made.Opens p :=
  fun place passes => keeps place (opens place (becomes.passes.mp passes))

/-- That every place a path passes is a folder already, or on the way from the top to where it leads. -/
def Direct (d : Disk) (p : Path) : Prop :=
  ∀ place, d.Passes p place → d.root.HasFolder place ∨ place <+: d.place p

theorem follow_front {steps front : List String} (noStepUp : ".." ∉ steps) (starts : front <+: steps)
    (place : Location) : follow place front <+: follow place steps := by
  have longer (steps : List String) (noStepUp : ".." ∉ steps) (place : Location) :
      place <+: follow place steps := by
    induction steps generalizing place with
    | nil => exact List.prefix_rfl
    | cons step steps ih =>
        rw [List.mem_cons, not_or] at noStepUp
        rw [follow, if_neg (Ne.symm noStepUp.1)]
        split
        · exact ih noStepUp.2 place
        · exact (List.prefix_append _ _).trans (ih noStepUp.2 _)
  obtain ⟨rest, rfl⟩ := starts
  rw [follow_append]
  exact longer rest (fun member => noStepUp (List.mem_append_right front member)) _

theorem direct_of_noStepUp (noStepUp : ".." ∉ p.parts) : d.Direct p := by
  intro place ⟨steps, _, starts, same⟩
  exact .inr (same ▸ follow_front noStepUp starts _)

/-! ## Folders that are made -/

theorem createFolder_passes (created : d.createFolder p = .ok made) : d.Passes p (d.place p) := by
  apply passes_place
  intro stays
  obtain ⟨above, folder, name, found, -⟩ := createFolder_eq_ok created
  obtain ⟨located, -, -⟩ := spot_way found
  have place := locate_eq_ok located
  obtain ⟨accepted, -⟩ := locate_iff.mp located
  rw [place_withoutLastSlash, Disk.place, stays] at place
  cases absolute : p.isAbsolute with
  | true => simp [absolute, follow] at place
  | false =>
      have nonempty := text_ne_empty accepted
      rw [← Path.isAbsolute_withoutLastSlash] at absolute
      obtain ⟨first, rest, pieces, some_⟩ := Path.pieces_of_relative absolute nonempty
      rw [← Path.parts_withoutLastSlash, Path.parts, pieces, List.filter_cons_of_pos (by simpa)] at stays
      cases stays

theorem createChain_folders (sound : d.Sound) (paths : List Path)
    (there : (d.createChain paths).1.root.HasFolder place) :
    d.root.HasFolder place ∨ ∃ q ∈ paths, d.Passes q place := by
  have made {d d' : Disk} {q : Path} {place : Location} (created : d.createFolder q = .ok d')
      (there : d'.root.HasFolder place) : d.root.HasFolder place ∨ d.Passes q place := by
    obtain before | rfl := (createFolder_adds created place).mp there
    · exact .inl before
    · exact .inr (place_withoutLastSlash d q ▸ createFolder_passes created)
  induction paths generalizing place with
  | nil => exact .inl there
  | cons p above ih =>
      have further (place : Location) (there : (d.createChain above).1.root.HasFolder place) :
          d.root.HasFolder place ∨ ∃ q ∈ p :: above, d.Passes q place := by
        obtain before | ⟨q, member, passes⟩ := ih there
        · exact .inl before
        · exact .inr ⟨q, List.mem_cons_of_mem p member, passes⟩
      have becomes := createChain_becomes sound above
      -- A folder is tried before those above it, and again after them if they were missing.
      rw [createChain] at there
      split at there
      · exact .inl there
      · split at there
        · next created =>
            exact (made created there).imp_right fun passes => ⟨p, List.mem_cons_self, passes⟩
        · split at there
          · next chain =>
              rw [chain] at further
              exact further place there
          · next between chain =>
              rw [chain] at further becomes
              split at there
              · next created =>
                  obtain earlier | passes := made created there
                  · exact further place earlier
                  · exact .inr ⟨p, List.mem_cons_self, becomes.passes.mp passes⟩
              · exact further place there
        · exact .inl there

theorem createFolders_folders (sound : d.Sound) (p : Path)
    (there : (d.createFolders p).1.root.HasFolder place) :
    d.root.HasFolder place ∨ d.Passes p place := by
  unfold createFolders at there
  split at there
  · next created =>
      obtain before | rfl := (createFolder_adds created place).mp there
      · exact .inl before
      · exact .inr (place_withoutLastSlash d p ▸ createFolder_passes created)
  · obtain before | ⟨q, member, passes⟩ := createChain_folders sound _ there
    · exact .inl before
    · right
      cases List.mem_cons.mp member with
      | inl same => exact same ▸ passes
      | inr member =>
          obtain ⟨absolute, front⟩ := Path.of_mem_above member
          exact passes.of_front absolute front
  · exact .inl there

theorem createFolders_there (folder : d.isFolder p = true) : d.createFolders p = (d, .ok ()) := by
  obtain ⟨accepted, way, ⟨content, there⟩, usable⟩ := isFolder_iff.mp folder
  have located : d.locate p.withoutLastSlash = .ok (d.place p) := by
    refine locate_iff.mpr ⟨refuse?_withoutLastSlash accepted, ?_, ?_⟩
    · rwa [Path.isAbsolute_withoutLastSlash, Path.parts_withoutLastSlash]
    · exact fun _ => ⟨content, folderIn_iff.mpr ⟨there, usable⟩⟩
  have refused : d.createFolder p = .error .alreadyThere := by
    unfold createFolder spot
    simp only [located, bind, Except.bind]
    cases last : (d.place p).getLast? with
    | none => rfl
    | some name =>
        obtain ⟨above, place⟩ := List.getLast?_eq_some_iff.mp last
        rw [place] at there usable
        obtain ⟨folder, inside⟩ : d.root.HasFolder above :=
          Tree.hasFolder_of_at? (there.trans_ne (Option.some_ne_none _))
        rw [Tree.at?_append inside, Tree.at?_singleton] at there
        have aboveUsable : ∀ other ∈ above, other.utf8ByteSize ≤ nameLimit :=
          fun other member => usable other (List.mem_append_left _ member)
        have short : ¬ nameLimit < name.utf8ByteSize := Nat.not_lt.mpr (usable name (by simp))
        simp only [place, List.dropLast_concat, folderIn_iff.mpr ⟨inside, aboveUsable⟩, short,
          if_false, there]
  rw [createFolders, refused]
  simp [folder]

theorem createFolders_opens (created : d.createFolders p = (made, .ok ())) : made.Opens p := by
  obtain empty | ⟨leads, -⟩ := createFolders_leads created
  · exact fun _ passes => absurd passes (not_passes_empty empty)
  · exact leads.opens

theorem createFolders_adds (sound : d.Sound) (created : d.createFolders p = (made, .ok ())) :
    d.Adds made (d.Passes p) := by
  have becomes := createFolders_becomes sound p
  have keeps := d.createFolders_keepsFolders p
  have fewer (place : Location) (there : (d.createFolders p).1.root.HasFolder place) :=
    createFolders_folders sound p there
  rw [created] at becomes keeps fewer
  intro place
  refine ⟨fewer place, ?_⟩
  rintro (there | passes)
  · exact keeps place there
  · exact createFolders_opens created place (becomes.passes.mpr passes)

end Disk

end Cookbook
