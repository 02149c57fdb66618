import Cookbook.Proofs.Disk.Ways
import Cookbook.Proofs.Feed

/-!
Loading descriptors once more. Loading changes nothing but what is remembered of the feed, and a
descriptor that was loaded is loaded again as long as its file can be read.
-/

namespace Cookbook

open Action

/-- That what is remembered of the feed is not forgotten. -/
def Remembers (session after : Session) : Prop :=
  ∀ published, session.published = some published → after.published = some published

instance : IsPreorder Session Remembers where
  refl _ _ known := known
  trans _ _ _ first second published known := second published (first published known)

theorem remembers_of_published {session after : Session}
    (same : after.published = session.published) : Remembers session after := by
  intro published known
  rw [same, known]

/-- That a session is another one but for what was newly remembered of the feed. -/
structure Reads (session after : Session) : Prop where
  same : after = { session with published := after.published }
  remembers : Remembers session after

instance : IsPreorder Session Reads where
  refl session := ⟨rfl, refl_of Remembers session⟩
  trans _ _ _ first second :=
    ⟨by rw [second.same, first.same], trans_of Remembers first.remembers second.remembers⟩

namespace Reads

variable {session after : Session}

theorem disk (reads : Reads session after) : after.disk = session.disk := by rw [reads.same]

theorem runs (reads : Reads session after) : after.runs = session.runs := by rw [reads.same]

end Reads

theorem Context.published_reads (context : Context) : Keeps Reads context.published := by
  intro session
  have run := context.published_run session
  cases known : session.published with
  | some published =>
      rw [known] at run
      rw [left_of_ok run]
      exact refl_of Reads session
  | none =>
      rw [known] at run
      cases read : context.readFeed.outcome session with
      | ok published =>
          rw [read] at run
          rw [left_of_ok run]
          refine ⟨rfl, ?_⟩
          intro other remembered
          rw [known] at remembered
          cases remembered
      | error failure =>
          rw [read] at run
          rw [left_of_error run]
          exact refl_of Reads session

theorem Context.publishedRelease_reads (context : Context) (line : ReleaseLine) :
    Keeps Reads (context.publishedRelease line) :=
  keeps_bind context.published_reads fun _ => keeps_ofExcept _

theorem Context.greatestRelease_reads (context : Context) : Keeps Reads context.greatestRelease := by
  refine keeps_bind context.published_reads ?_
  intro published
  split
  · exact keeps_throw _
  · exact keeps_pure _

theorem Descriptor.load_reads (folder : Path) (context : Context) :
    Keeps Reads (load folder context) := by
  unfold load
  refine keeps_bind (keeps_isFile _) ?_
  intro found
  split
  · refine keeps_bind (keeps_look _ _) ?_
    intro content
    split
    · exact keeps_bind (keeps_attempt (context.publishedRelease_reads _)) fun _ => keeps_ofExcept _
    · exact keeps_bind (keeps_pure _) fun _ => keeps_ofExcept _
  · exact keeps_throw _

/-! ## Loading again -/

theorem Context.publishedRelease_known {context : Context} {line : ReleaseLine} {release : Release}
    {session after : Session} (run : (context.publishedRelease line).run session = .ok release after) :
    ∃ published, after.published = some published ∧ published.release line = .ok release := by
  unfold publishedRelease at run
  rw [bind_eq_ok] at run
  obtain ⟨published, between, took, run⟩ := run
  obtain ⟨found, rfl⟩ := ofExcept_eq_ok.mp run
  refine ⟨published, ?_, found⟩
  rw [published_run] at took
  cases remembered : session.published with
  | some other =>
      rw [remembered] at took
      cases took
      exact remembered
  | none =>
      rw [remembered] at took
      cases read : context.readFeed.outcome session with
      | ok other =>
          rw [read] at took
          cases took
          rfl
      | error failure =>
          rw [read] at took
          cases took

theorem Context.publishedRelease_again {context : Context} {line : ReleaseLine}
    {release : Release} {session after later : Session}
    (run : (context.publishedRelease line).run session = .ok release after)
    (known : Remembers after later) :
    (context.publishedRelease line).run later = .ok release later := by
  obtain ⟨published, remembered, found⟩ := publishedRelease_known run
  have again : context.published.run later = .ok published later := by
    rw [published_run, known published remembered]
  unfold publishedRelease
  rw [run_bind_of_ok again]
  exact ofExcept_eq_ok.mpr ⟨found, rfl⟩

namespace Descriptor

variable {folder : Path} {context : Context} {session : Session} {content : String}

theorem load_of_text (read : session.disk.readText (folder.joinName fileName) = .ok content) :
    (load folder context).run session =
      match lineToResolve? content with
      | some line => (ofExcept (parse content folder.name (folder.joinName fileName) fun _ =>
          (context.publishedRelease line).outcome session)).run
            ((context.publishedRelease line).left session)
      | none => (ofExcept (parse content folder.name (folder.joinName fileName) fun _ =>
          .error (.missingPublishedRelease none))).run session := by
  have found : (isFile (folder.joinName fileName)).run session = .ok true session :=
    isFile_eq_ok.mpr ⟨Disk.isFile_of_readText read, rfl⟩
  unfold load
  rw [run_bind_of_ok found]
  simp only [if_true]
  rw [run_bind_of_ok (readText_eq_ok.mpr ⟨read, rfl⟩)]
  cases lineToResolve? content with
  | some line => exact run_bind_of_ok (attempt_run _ _)
  | none => rfl

theorem lineToResolve?_eq_some {line : ReleaseLine} (resolves : lineToResolve? content = some line) :
    ∃ metadata text, Metadata.read content = .ok metadata ∧
      metadata.minimum.bind Text.nonBlank? = some text ∧ ReleaseLine.parse? text = some line := by
  unfold lineToResolve? readMetadata at resolves
  cases read : Metadata.read content with
  | error fault => simp [read, Except.bind] at resolves
  | ok metadata =>
      simp only [read, Except.bind] at resolves
      refine ⟨metadata, ?_⟩
      cases given : metadata.minimum.bind Text.nonBlank? with
      | none => simp [Minimum.read, given] at resolves
      | some text =>
          cases line_ : ReleaseLine.parse? text with
          | some other => simp_all [Minimum.read]
          | none => cases release : Release.parse? text <;> simp_all [Minimum.read]

theorem load_again {descriptor : Descriptor} {after later : Session}
    (run : (load folder context).run session = .ok descriptor after)
    (still : ∀ text, after.disk.readText (folder.joinName fileName) = .ok text →
      later.disk.readText (folder.joinName fileName) = .ok text)
    (known : Remembers after later) :
    (load folder context).run later = .ok descriptor later := by
  have sameDisk : after.disk = session.disk := (load_sameDisk folder context).ok run
  obtain ⟨content, -, read, -⟩ := load_eq_ok run
  rw [load_of_text read] at run
  rw [load_of_text (still content (by rwa [sameDisk]))]
  cases resolves : lineToResolve? content with
  | none =>
      simp only [resolves] at run ⊢
      obtain ⟨parsed, -⟩ := ofExcept_eq_ok.mp run
      exact ofExcept_eq_ok.mpr ⟨parsed, rfl⟩
  | some line =>
      simp only [resolves] at run ⊢
      obtain ⟨parsed, left⟩ := ofExcept_eq_ok.mp run
      obtain ⟨metadata, text, metadata_, given, line_⟩ := lineToResolve?_eq_some resolves
      have found := lookup_of_parse parsed metadata_ given line_
      have first := run_of_outcome_ok found
      rw [left] at first
      have again := Context.publishedRelease_again first known
      rw [outcome_of_ok again, left_of_ok again]
      rw [found] at parsed
      exact ofExcept_eq_ok.mpr ⟨parsed, rfl⟩

end Descriptor

/-! ## Loading from the same texts -/

section Agree

variable {context : Context} {folder : Path} {first second ended ended' : Session}
  {published published' : Published} {descriptor descriptor' : Descriptor}

/-- That two sessions remember the same of the feed, and read the same text in it if both can read it. -/
structure Context.AgreesOnFeed (context : Context) (first second : Session) : Prop where
  published : second.published = first.published
  feed : ∀ feed feed', first.disk.readText context.config.feed = .ok feed →
    second.disk.readText context.config.feed = .ok feed' → feed' = feed

theorem Context.AgreesOnFeed.published_eq (agrees : context.AgreesOnFeed first second)
    (run : context.published.run first = .ok published ended)
    (run' : context.published.run second = .ok published' ended') : published' = published := by
  rw [published_run] at run run'
  rw [agrees.published] at run'
  -- What is remembered is the same for both. Else both have read the feed.
  cases known : first.published with
  | some remembered =>
      rw [known] at run run'
      cases run
      cases run'
      rfl
  | none =>
      rw [known] at run run'
      cases read : context.readFeed.outcome first with
      | error failure =>
          rw [read] at run
          cases run
      | ok latest =>
          cases read' : context.readFeed.outcome second with
          | error failure =>
              rw [read'] at run'
              cases run'
          | ok latest' =>
              rw [read] at run
              rw [read'] at run'
              cases run
              cases run'
              obtain ⟨feed, text, reads⟩ := readFeed_eq_ok (run_of_outcome_ok read)
              obtain ⟨feed', text', reads'⟩ := readFeed_eq_ok (run_of_outcome_ok read')
              rw [agrees.feed feed feed' text text', reads] at reads'
              cases reads'
              rfl

theorem Context.AgreesOnFeed.release_eq (agrees : context.AgreesOnFeed first second)
    {line : ReleaseLine} {release release' : Release}
    (run : (context.publishedRelease line).run first = .ok release ended)
    (run' : (context.publishedRelease line).run second = .ok release' ended') : release' = release := by
  unfold publishedRelease at run run'
  rw [bind_eq_ok] at run run'
  obtain ⟨published, between, took, found⟩ := run
  obtain ⟨published', between', took', found'⟩ := run'
  obtain rfl := agrees.published_eq took took'
  have same := (ofExcept_eq_ok.mp found).1
  rw [(ofExcept_eq_ok.mp found').1] at same
  exact Except.ok.inj same

/-- A descriptor is determined by the text of its file and what the feed gives. -/
theorem Context.AgreesOnFeed.descriptor_eq (agrees : context.AgreesOnFeed first second)
    (text : ∀ content content',
      first.disk.readText (folder.joinName Descriptor.fileName) = .ok content →
      second.disk.readText (folder.joinName Descriptor.fileName) = .ok content' → content' = content)
    (run : (Descriptor.load folder context).run first = .ok descriptor ended)
    (run' : (Descriptor.load folder context).run second = .ok descriptor' ended') :
    descriptor' = descriptor := by
  obtain ⟨content, -, read, -⟩ := Descriptor.load_eq_ok run
  obtain ⟨content', -, read', -⟩ := Descriptor.load_eq_ok run'
  obtain rfl := text content content' read read'
  rw [Descriptor.load_of_text read] at run
  rw [Descriptor.load_of_text read'] at run'
  cases resolves : Descriptor.lineToResolve? content' with
  | none =>
      simp only [resolves] at run run'
      have parsed := (ofExcept_eq_ok.mp run).1
      rw [(ofExcept_eq_ok.mp run').1] at parsed
      exact Except.ok.inj parsed
  | some line =>
      simp only [resolves] at run run'
      have parsed := (ofExcept_eq_ok.mp run).1
      have parsed' := (ofExcept_eq_ok.mp run').1
      obtain ⟨metadata, text, metadata_, given, line_⟩ := Descriptor.lineToResolve?_eq_some resolves
      have found := Descriptor.lookup_of_parse parsed metadata_ given line_
      have found' := Descriptor.lookup_of_parse parsed' metadata_ given line_
      have release := agrees.release_eq (run_of_outcome_ok found) (run_of_outcome_ok found')
      rw [found] at parsed
      rw [found', release, parsed] at parsed'
      exact (Except.ok.inj parsed').symm

end Agree

end Cookbook
