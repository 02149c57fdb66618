import Cookbook.Proofs.OrderedMap
import Cookbook.Proofs.Placeholder.Stripping
import Cookbook.Proofs.Recipe.Load
import Cookbook.Proofs.Text.Lines

/-!
# Latest releases

`Feed.latest_published`: the release that a feed gives for a line is the greatest that it names with
the line's text in front. Two facts carry this. A version that starts with a line's text and a dot
can only be read as a release of that line (`Release.line_of_covers`), so no two lines compete for a
version; and comparing releases tells all of them apart, so a running maximum is the only greatest
one (`Feed.greatestFrom?_none_eq_some`), in whatever order it was found.
-/

namespace Cookbook

/-! ## The line of a release -/

theorem Text.notMem_digits {c : Char} (other : c.isDigit = false) (n : UInt32) : c ∉ digits n := by
  intro member
  rw [Nat.isDigit_of_mem_toDigits (by decide) (by decide) member] at other
  cases other

theorem ReleaseLine.covers_iff {line : ReleaseLine} {version : String} :
    line.covers version = true ↔ line.chars ++ ['.'] <+: version.toList :=
  List.isPrefixOf_iff_prefix

theorem ReleaseLine.dash_notMem_chars (line : ReleaseLine) : '-' ∉ line.chars := by
  have absent := Text.notMem_digits (c := '-') (by decide)
  simp [chars, absent]

theorem Release.splitDash_fst (cs : List Char) : (splitDash cs).1 = cs.takeWhile (· ≠ '-') := by
  have whole := List.takeWhile_append_dropWhile (p := (· ≠ '-')) (l := cs)
  unfold splitDash
  split
  next none =>
    rw [none, List.append_nil] at whole
    exact whole.symm
  · rfl

theorem Release.parseChars?_eq_some {cs : List Char} {release : Release}
    (parsed : parseChars? cs = some release) :
    ∃ major minor micro, Text.fields '.' (splitDash cs).1 = [major, minor, micro] ∧
      Text.word? major = some release.major ∧ Text.word? minor = some release.minor ∧
      Text.word? micro = some release.micro ∧
      ((splitDash cs).2.elim (some (.final, 0)) preview? = some (release.stage, release.number)) := by
  rcases whole : splitDash cs with ⟨core, suffix⟩
  unfold parseChars? at parsed
  rw [whole] at parsed
  cases suffix
  all_goals
    simp only [Option.bind_eq_bind, Option.bind_eq_some_iff] at parsed
    obtain ⟨⟨stage, number⟩, ending, parsed⟩ := parsed
    split at parsed
    next major minor micro split =>
      simp only [Option.bind_eq_some_iff] at parsed
      obtain ⟨first, first_, second, second_, third, third_, made⟩ := parsed
      cases made
      exact ⟨major, minor, micro, split, first_, second_, third_, ending⟩
    · cases parsed

theorem Release.line_of_covers {line : ReleaseLine} {version : String} {release : Release}
    (covers : line.covers version = true) (parsed : parse? version = some release) :
    release.line = line := by
  obtain ⟨rest, whole⟩ := ReleaseLine.covers_iff.mp covers
  have noDash : '-' ∉ line.chars ++ ['.'] := by
    simp [line.dash_notMem_chars]
  have core : (splitDash version.toList).1 = Text.digits line.major ++
      '.' :: (Text.digits line.minor ++ '.' :: rest.takeWhile (· ≠ '-')) := by
    rw [splitDash_fst, ← whole, List.takeWhile_append_of_pos (List.all_eq_true.mp (Text.all_ne_of_notMem noDash))]
    simp [ReleaseLine.chars]
  have noDot := Text.notMem_digits (c := '.') (by decide)
  obtain ⟨major, minor, micro, fields, major_, minor_, -⟩ := parseChars?_eq_some parsed
  rw [core, Text.fields_append, Text.fields_append, Text.fields_of_notMem (noDot _),
    Text.fields_of_notMem (noDot _), List.singleton_append, List.singleton_append] at fields
  injection fields with first fields
  injection fields with second fields
  subst first second
  rw [Text.word?_digits, Option.some.injEq] at major_ minor_
  rw [Release.line, ← major_, ← minor_]

/-! ## Counting versions -/

namespace Feed

variable {lines : List ReleaseLine} {line : ReleaseLine} {version : String}
  {versions : List String} {release : Release} {releases : List Release}

/-- The release that a published version counts as for a line, if it does. -/
def counted? (line : ReleaseLine) (version : String) : Option Release :=
  if line.covers version then Release.parse? version else none

theorem counted?_eq_some :
    counted? line version = some release ↔
      line.covers version = true ∧ Release.parse? version = some release := by
  simp [counted?]

theorem counted?_of_parsed (parsed : Release.parse? version = some release) :
    counted? line version = if line.covers version then some release else none := by
  rw [counted?, parsed]

/-- No two lines cover one release, so it does not matter which comes first in the list. -/
theorem get?_note (latest : Published) (version : String) (member : line ∈ lines) :
    (note lines latest version).get? line = match counted? line version with
      | some release => some (later release (latest.get? line))
      | none => latest.get? line := by
  cases parsed : Release.parse? version with
  | none => simp [note, counted?, parsed]
  | some release =>
      have line_ {line : ReleaseLine} (covers : line.covers version = true) : release.line = line :=
        Release.line_of_covers covers parsed
      rw [counted?_of_parsed parsed]
      cases found : lines.find? (·.covers version) with
      | none =>
          have outside := List.find?_eq_none.mp found line member
          simp [note, found, outside]
      | some first =>
          have first_ : first.covers version = true := by
            simpa using List.find?_some found
          simp only [note, found, parsed, OrderedMap.get?_alter]
          -- Another line that covers the version would be the line of its release, too.
          by_cases same : line = first
          · rw [if_pos same, same, first_]
            rfl
          · have outside : line.covers version = false := by
              by_contra covers
              rw [Bool.not_eq_false] at covers
              exact same ((line_ covers).symm.trans (line_ first_))
            rw [if_neg same, outside]
            rfl

theorem get?_note_of_notMem (latest : Published) (version : String) (outside : line ∉ lines) :
    (note lines latest version).get? line = latest.get? line := by
  unfold note
  split
  next first release found parsed =>
    have other : line ≠ first := by
      rintro rfl
      exact outside (List.mem_of_find?_eq_some found)
    rw [OrderedMap.get?_alter, if_neg other]
  · rfl

def greatestFrom? (greatest : Option Release) (releases : List Release) : Option Release :=
  releases.foldl (fun greatest release => some (later release greatest)) greatest

theorem get?_foldl_note (versions : List String) (latest : Published) (member : line ∈ lines) :
    (versions.foldl (note lines) latest).get? line =
      greatestFrom? (latest.get? line) (versions.filterMap (counted? line)) := by
  induction versions generalizing latest with
  | nil => rfl
  | cons version versions ih =>
      rw [List.foldl_cons, ih, get?_note latest version member]
      cases counted : counted? line version with
      | none => rw [List.filterMap_cons_none counted]
      | some release =>
          rw [List.filterMap_cons_some counted]
          rfl

theorem get?_foldl_note_of_notMem (versions : List String) (latest : Published)
    (outside : line ∉ lines) :
    (versions.foldl (note lines) latest).get? line = latest.get? line := by
  induction versions generalizing latest with
  | nil => rfl
  | cons version versions ih => rw [List.foldl_cons, ih, get?_note_of_notMem latest version outside]

theorem get?_latestOf (versions : List String) (line : ReleaseLine) :
    (latestOf lines versions).get? line =
      if line ∈ lines then greatestFrom? none (versions.filterMap (counted? line)) else none := by
  split_ifs with member
  · exact get?_foldl_note versions .empty member
  · exact get?_foldl_note_of_notMem versions .empty member

/-! ## The greatest release -/

theorem isLE_later (release current : Release) :
    (compare release (later release (some current))).isLE ∧
      (compare current (later release (some current))).isLE := by
  by_cases less : compare current release = .lt
  · rw [later, if_pos less]
    exact ⟨Std.ReflCmp.isLE_rfl, Ordering.isLE_of_eq_lt less⟩
  · rw [later, if_neg less]
    exact ⟨Std.OrientedCmp.isLE_of_isGE (Ordering.ne_lt_iff_isGE.mp less), Std.ReflCmp.isLE_rfl⟩

theorem greatestFrom?_some (current : Release) (releases : List Release) :
    ∃ greatest ∈ current :: releases, greatestFrom? (some current) releases = some greatest ∧
      ∀ release ∈ current :: releases, (compare release greatest).isLE := by
  induction releases generalizing current with
  | nil => exact ⟨current, List.mem_cons_self, rfl, by simp⟩
  | cons next releases ih =>
      obtain ⟨greatest, member, from_, above⟩ := ih (later next (some current))
      obtain ⟨nextBelow, currentBelow⟩ := isLE_later next current
      obtain ⟨laterBelow, above⟩ := List.forall_mem_cons.mp above
      have kept : later next (some current) = next ∨ later next (some current) = current :=
        ite_eq_or_eq ..
      refine ⟨greatest, ?_, from_, ?_⟩
      · rcases kept with kept | kept
        · rw [kept] at member
          exact List.mem_cons_of_mem _ member
        · rw [kept] at member
          exact List.cons_subset_cons current (List.subset_cons_self next releases) member
      · refine List.forall_mem_cons.mpr ⟨Std.TransCmp.isLE_trans currentBelow laterBelow, ?_⟩
        exact List.forall_mem_cons.mpr ⟨Std.TransCmp.isLE_trans nextBelow laterBelow, above⟩

theorem greatestFrom?_none_eq_some :
    greatestFrom? none releases = some release ↔
      release ∈ releases ∧ ∀ other ∈ releases, (compare other release).isLE := by
  cases releases with
  | nil => simp [greatestFrom?]
  | cons first releases =>
      obtain ⟨greatest, member, from_, above⟩ := greatestFrom?_some first releases
      have from_ : greatestFrom? none (first :: releases) = some greatest := from_
      rw [from_, Option.some.injEq]
      constructor
      · rintro rfl
        exact ⟨member, above⟩
      · rintro ⟨among, greater⟩
        exact Std.LawfulEqOrd.eq_of_compare
          (Std.OrientedCmp.isLE_antisymm (greater greatest member) (above release among))

theorem greatestFrom?_none_isSome :
    (greatestFrom? none releases).isSome ↔ ∃ release, release ∈ releases := by
  cases releases with
  | nil => simp [greatestFrom?]
  | cons first releases =>
      obtain ⟨greatest, member, from_, -⟩ := greatestFrom?_some first releases
      have from_ : greatestFrom? none (first :: releases) = some greatest := from_
      exact ⟨fun _ => ⟨greatest, member⟩, fun _ => by simp [from_]⟩

/-! ## The latest release of a line -/

/-- That a published version names a release of a line: it starts with the line and a dot. -/
def Names (line : ReleaseLine) (version : String) (release : Release) : Prop :=
  (line.text ++ ".").toList <+: version.toList ∧ Release.parse? version = some release

/-- That a release is the greatest that published versions name for a line. -/
@[mk_iff]
structure IsLatest (versions : List String) (line : ReleaseLine) (release : Release) : Prop where
  named : ∃ version ∈ versions, Names line version release
  greatest : ∀ version ∈ versions, ∀ other, Names line version other → (compare other release).isLE

theorem counted?_iff_names : counted? line version = some release ↔ Names line version release := by
  rw [counted?_eq_some, ReleaseLine.covers_iff, Names, ReleaseLine.text, String.toList_append,
    String.toList_ofList]
  rfl

theorem Names.line_eq (names : Names line version release) : release.line = line := by
  obtain ⟨covers, parsed⟩ := counted?_eq_some.mp (counted?_iff_names.mpr names)
  exact Release.line_of_covers covers parsed

theorem IsLatest.line_eq (isLatest : IsLatest versions line release) : release.line = line := by
  obtain ⟨version, -, names⟩ := isLatest.named
  exact names.line_eq

theorem mem_counted :
    release ∈ versions.filterMap (counted? line) ↔
      ∃ version ∈ versions, Names line version release := by
  simp only [List.mem_filterMap, counted?_iff_names]

theorem IsLatest.congr {others : List String}
    (same : ∀ version, version ∈ others ↔ version ∈ versions) :
    IsLatest others line release ↔ IsLatest versions line release := by
  simp only [isLatest_iff, same]

theorem greatestFrom?_counted_eq_some :
    greatestFrom? none (versions.filterMap (counted? line)) = some release ↔
      IsLatest versions line release := by
  rw [greatestFrom?_none_eq_some, isLatest_iff, mem_counted]
  refine and_congr_right fun _ => ⟨?_, ?_⟩
  · intro above version member other names
    exact above other (mem_counted.mpr ⟨version, member, names⟩)
  · intro above other among
    obtain ⟨version, member, names⟩ := mem_counted.mp among
    exact above version member other names

theorem get?_latestOf_eq_some :
    (latestOf lines versions).get? line = some release ↔
      line ∈ lines ∧ IsLatest versions line release := by
  rw [get?_latestOf]
  split_ifs with member
  · simp only [greatestFrom?_counted_eq_some, member, true_and]
  · simp [member]

theorem get?_latestOf_isSome :
    ((latestOf lines versions).get? line).isSome ↔
      line ∈ lines ∧ ∃ version ∈ versions, ∃ release, Names line version release := by
  rw [get?_latestOf]
  split_ifs with member
  · simp only [greatestFrom?_none_isSome, mem_counted, member, true_and]
    exact ⟨fun ⟨release, version, found⟩ => ⟨version, found.1, release, found.2⟩,
      fun ⟨version, found, release, names⟩ => ⟨release, version, found, names⟩⟩
  · simp [member]

theorem latestOf_congr {others : List String} {otherLines : List ReleaseLine}
    (sameVersions : ∀ version, version ∈ others ↔ version ∈ versions)
    (sameLines : ∀ line, line ∈ otherLines ↔ line ∈ lines) :
    latestOf otherLines others = latestOf lines versions := by
  refine OrderedMap.ext_get? fun line => Option.ext fun release => ?_
  rw [get?_latestOf_eq_some, get?_latestOf_eq_some, sameLines, IsLatest.congr sameVersions]

end Feed

/-! ## Least releases of descriptors -/

theorem ReleaseLine.parse?_text (line : ReleaseLine) : parse? line.text = some line := by
  have absent := Text.notMem_digits (c := '.') (by decide)
  have fields : Text.fields '.' line.text.toList =
      [Text.digits line.major, Text.digits line.minor] := by
    rw [text, String.toList_ofList, chars, Text.fields_append, Text.fields_of_notMem (absent _),
      Text.fields_of_notMem (absent _)]
    rfl
  unfold parse?
  simp [fields, Text.word?_digits]

namespace Context

/-- That a context takes the published releases from a feed: it has read it before or would read it
now. -/
def Follows (context : Context) (session : Session) (feed : String) : Prop :=
  match session.published with
  | some published => Feed.latest feed context.table.keys = .ok published
  | none => session.disk.isFile context.config.feed = true ∧
      session.disk.readText context.config.feed = .ok feed

theorem readFeed_eq_ok {context : Context} {session after : Session} {published : Published}
    (run : context.readFeed.run session = .ok published after) :
    ∃ feed, session.disk.readText context.config.feed = .ok feed ∧
      Feed.latest feed context.table.keys = .ok published := by
  unfold readFeed at run
  simp only [Action.bind_eq_ok] at run
  obtain ⟨found, between, checked, run⟩ := run
  obtain ⟨-, rfl⟩ := Action.isFile_eq_ok.mp checked
  split at run
  · rw [Action.bind_eq_ok] at run
    obtain ⟨feed, reading, read, run⟩ := run
    obtain ⟨feed_, rfl⟩ := Action.readText_eq_ok.mp read
    exact ⟨feed, feed_, (Action.ofExcept_eq_ok.mp run).1⟩
  · exact absurd run Action.throw_ne_ok

theorem Follows.latest {context : Context} {session after : Session} {feed : String}
    {published : Published} (follows : context.Follows session feed)
    (run : context.published.run session = .ok published after) :
    Feed.latest feed context.table.keys = .ok published := by
  rw [published_run] at run
  unfold Follows at follows
  cases known : session.published with
  | some remembered =>
      simp only [known] at run follows
      cases run
      exact follows
  | none =>
      simp only [known] at run follows
      cases read : context.readFeed.outcome session with
      | error failure =>
          rw [read] at run
          cases run
      | ok latest =>
          rw [read] at run
          cases run
          obtain ⟨content, content_, latest_⟩ := readFeed_eq_ok (Action.run_of_outcome_ok read)
          rw [follows.2] at content_
          cases content_
          exact latest_

theorem Follows.publishedRelease {context : Context} {session after : Session} {feed : String}
    {line : ReleaseLine} {release : Release} (follows : context.Follows session feed)
    (run : (context.publishedRelease line).run session = .ok release after) :
    ∃ published, Feed.latest feed context.table.keys = .ok published ∧
      published.get? line = some release := by
  unfold Context.publishedRelease at run
  rw [Action.bind_eq_ok] at run
  obtain ⟨published, between, took, run⟩ := run
  obtain ⟨found, -⟩ := Action.ofExcept_eq_ok.mp run
  refine ⟨published, follows.latest took, ?_⟩
  unfold Published.release at found
  split at found
  next known =>
    cases found
    exact known
  · cases found

end Context

namespace Descriptor

variable {content folderName text : String} {path folder : Path} {metadata : Metadata}
  {descriptor : Descriptor} {line : ReleaseLine} {context : Context} {session after : Session}
  {lookup : ReleaseLine → Except Failure Release}

theorem minimum_read (given : metadata.minimum.bind Text.nonBlank? = some text)
    (line_ : ReleaseLine.parse? text = some line) (path : Path) :
    Minimum.read path metadata = .ok (.latestOf text line) := by
  simp [Minimum.read, given, line_]

theorem lineToResolve?_of_read (read : Metadata.read content = .ok metadata)
    (given : metadata.minimum.bind Text.nonBlank? = some text)
    (line_ : ReleaseLine.parse? text = some line) : lineToResolve? content = some line := by
  simp [lineToResolve?, readMetadata, read, Except.bind, minimum_read given line_]

theorem lookup_of_parse (parsed : parse content folderName path lookup = .ok descriptor)
    (read : Metadata.read content = .ok metadata)
    (given : metadata.minimum.bind Text.nonBlank? = some text)
    (line_ : ReleaseLine.parse? text = some line) : lookup line = .ok descriptor.minimum := by
  obtain ⟨_, least, same, least_, resolved, -⟩ := parse_eq_ok parsed
  have same_ : readMetadata path content = .ok metadata := by rw [readMetadata, read]
  rw [same_] at same
  cases same
  rw [minimum_read given line_] at least_
  cases least_
  simp only [Minimum.resolve] at resolved
  split at resolved
  next found =>
    cases resolved
    exact found
  · cases resolved

theorem publishedRelease_of_load (run : (load folder context).run session = .ok descriptor after)
    (content_ : session.disk.readText (folder.joinName fileName) = .ok content)
    (read : Metadata.read content = .ok metadata)
    (given : metadata.minimum.bind Text.nonBlank? = some text)
    (line_ : ReleaseLine.parse? text = some line) :
    (context.publishedRelease line).outcome session = .ok descriptor.minimum := by
  obtain ⟨text_, lookup, same, resolves, parsed⟩ := load_eq_ok run
  rw [content_] at same
  cases same
  rw [← resolves line (lineToResolve?_of_read read given line_)]
  exact lookup_of_parse parsed read given line_

/-- A descriptor that gives its least release as a line gets the latest release of the line. -/
theorem minimum_isLatest {feed : String} {versions : List String}
    (follows : context.Follows session feed) (feed_ : Feed.versions feed = .ok versions)
    (run : (load folder context).run session = .ok descriptor after)
    (content_ : session.disk.readText (folder.joinName fileName) = .ok content)
    (read : Metadata.read content = .ok metadata)
    (given : metadata.minimum.bind Text.nonBlank? = some text)
    (line_ : ReleaseLine.parse? text = some line) :
    Feed.IsLatest versions line descriptor.minimum := by
  have outcome := publishedRelease_of_load run content_ read given line_
  obtain ⟨published, latest, found⟩ := follows.publishedRelease (Action.run_of_outcome_ok outcome)
  rw [Feed.latest, feed_] at latest
  cases latest
  exact (Feed.get?_latestOf_eq_some.mp found).2

end Descriptor

/-! ## Lookup in a feed -/

namespace Feed

theorem latest_of_versions {feed : String} {versions : List String}
    (read : Feed.versions feed = .ok versions) (lines : List ReleaseLine) :
    latest feed lines = .ok (latestOf lines versions) := by
  rw [latest, read]
  rfl

theorem latestNamed_of_parse {feed query : String} {versions : List String} {line : ReleaseLine}
    {lines : List ReleaseLine} (read : Feed.versions feed = .ok versions)
    (asked : ReleaseLine.parse? query = some line) (member : line ∈ lines) :
    latestNamed feed query = .ok ((latestOf lines versions).get? line) := by
  have same : (latestOf [line] versions).get? line = (latestOf lines versions).get? line := by
    rw [get?_latestOf, get?_latestOf, if_pos member, if_pos (List.mem_singleton_self line)]
  rw [latestNamed, asked, ← same]
  simp only [latest_of_versions read]
  rfl

/-- Looking releases up in a feed gives each line its greatest published release. Neither the order
of the versions or lines nor their repetition matters, a line asked for alone gets the same answer,
and least releases that descriptors give as a line lie in that line. -/
theorem latest_published (feed : String) (versions : List String) (lines : List ReleaseLine)
    (read : Feed.versions feed = .ok versions) :
    ∃ published, latest feed lines = .ok published ∧
      (∀ line, (published.get? line).isSome ↔
        line ∈ lines ∧ ∃ version ∈ versions, ∃ release, Names line version release) ∧
      (∀ line release, published.get? line = some release →
        IsLatest versions line release ∧ release.line = line) ∧
      (∀ otherLines others, (∀ line, line ∈ otherLines ↔ line ∈ lines) →
        (∀ version, version ∈ others ↔ version ∈ versions) →
          latestOf otherLines others = published ∧
          ∀ other, Feed.versions other = .ok others → latest other otherLines = .ok published) ∧
      (∀ line ∈ lines, latestNamed feed line.text = .ok (published.get? line) ∧
        ∀ query, ReleaseLine.parse? query = some line →
          latestNamed feed query = .ok (published.get? line)) ∧
      ∀ context folder session after descriptor content metadata text line,
        context.Follows session feed →
        (Descriptor.load folder context).run session = .ok descriptor after →
        session.disk.readText (folder.joinName Descriptor.fileName) = .ok content →
        Metadata.read content = .ok metadata → metadata.minimum.bind Text.nonBlank? = some text →
        ReleaseLine.parse? text = some line →
          IsLatest versions line descriptor.minimum ∧ descriptor.minimum.line = line := by
  refine ⟨latestOf lines versions, latest_of_versions read lines, ?_, ?_, ?_, ?_, ?_⟩
  · exact fun line => get?_latestOf_isSome
  · intro line release found
    have isLatest := (get?_latestOf_eq_some.mp found).2
    exact ⟨isLatest, isLatest.line_eq⟩
  · intro otherLines others sameLines sameVersions
    have same := latestOf_congr sameVersions sameLines
    refine ⟨same, fun other read_ => ?_⟩
    rw [latest_of_versions read_, same]
  · intro line member
    exact ⟨latestNamed_of_parse read line.parse?_text member,
      fun query asked => latestNamed_of_parse read asked member⟩
  · intro context folder session after descriptor content metadata text line follows run content_
      metadata_ given line_
    have isLatest := Descriptor.minimum_isLatest follows read run content_ metadata_ given line_
    exact ⟨isLatest, isLatest.line_eq⟩

def previewFeed : String :=
  "<m><version>8.1.1</version><version>8.1.0-rc02</version><version>8.10.0</version></m>"

def previewVersions : List String := ["8.1.1", "8.1.0-rc02", "8.10.0"]

/-- A feed next to a recipe whose least release is given as a line. -/
def besideFeed : Session where
  disk := {
    root := .folder "recipe"
      (.file "recipe_metadata.toml" ⟨"[agpVersion]\nmin = \"8.1\"\n".toUTF8, false⟩ .empty)
      (.file "maven-metadata.xml" ⟨previewFeed.toUTF8, false⟩ .empty)
    here := [] }

theorem latest_published_previewFeed :
    Feed.versions previewFeed = .ok previewVersions ∧
    (∃ published, latest previewFeed [⟨8, 1⟩, ⟨8, 3⟩] = .ok published ∧
      published.get? ⟨8, 1⟩ = some ⟨8, 1, 1, .final, 0⟩ ∧ published.get? ⟨8, 3⟩ = none ∧
      latest previewFeed [⟨8, 3⟩, ⟨8, 1⟩, ⟨8, 3⟩] = .ok published ∧
      latestNamed previewFeed "8.1" = .ok (published.get? ⟨8, 1⟩)) ∧
    ∃ descriptor after,
      (Descriptor.load ⟨"recipe"⟩ singleLineContext).run besideFeed = .ok descriptor after ∧
      descriptor.minimum.line = ⟨8, 1⟩ := by
  have read : Feed.versions previewFeed = .ok previewVersions := by decide +kernel
  obtain ⟨published, run, -, sound, orderFree, alone, loaded⟩ :=
    latest_published previewFeed previewVersions [⟨8, 1⟩, ⟨8, 3⟩] read
  have made : latest previewFeed [⟨8, 1⟩, ⟨8, 3⟩] =
      .ok (latestOf [⟨8, 1⟩, ⟨8, 3⟩] previewVersions) := latest_of_versions read _
  obtain rfl := Except.ok.inj (run.symm.trans made)
  have other := (orderFree [⟨8, 3⟩, ⟨8, 1⟩, ⟨8, 3⟩] previewVersions (by simp) (by simp)).2 _ read
  have named := (alone ⟨8, 1⟩ (by decide)).2 "8.1" (by decide +kernel)
  refine ⟨read, ⟨_, run, by decide +kernel, by decide +kernel, other, named⟩, ?_⟩
  have follows : singleLineContext.Follows besideFeed previewFeed :=
    And.intro (by decide +kernel) (by decide +kernel)
  have run_ : (Descriptor.load ⟨"recipe"⟩ singleLineContext).run besideFeed =
      .ok ⟨"recipe", "recipe", "recipe", ⟨8, 1, 1, .final, 0⟩, none, [], none, []⟩ _ :=
    Action.run_eq_ok (by decide +kernel)
  have line_ := (loaded singleLineContext ⟨"recipe"⟩ besideFeed _ _ "[agpVersion]\nmin = \"8.1\"\n"
    { minimum := some "8.1", maximum := none, destination := none, title := none, tasks := []
      validationTasks := none, keywords := [] } "8.1" ⟨8, 1⟩ follows run_
    (by decide +kernel) (by decide +kernel) (by decide +kernel) (by decide +kernel)).2
  exact ⟨_, _, run_, line_⟩

end Feed

end Cookbook
