import Cookbook.Proofs.Recipe.Describing

/-!
What is published is found out once. Questions are asked in any order while the disk changes in any way
between them. Up to the first that reads the feed, each is answered from the feed as it is then; from that
one on, all are answered from what was read.
-/

namespace Cookbook

open Action

/-! ## Questions -/

/-- What can be asked that takes the published releases to be answered. -/
inductive Question
  | latest (line : ReleaseLine)
  | greatest
  | descriptor (folder : Path)

namespace Question

abbrev Result : Question → Type
  | latest _ | greatest => Release
  | descriptor _ => Descriptor

def ask (context : Context) : (question : Question) → Action question.Result
  | latest line => context.publishedRelease line
  | greatest => context.greatestRelease
  | descriptor folder => Descriptor.load folder context

end Question

/-- The greatest of published releases. -/
def Published.greatest (published : Published) : Except Failure Release :=
  match published.values with
  | [] => .error (.missingPublishedRelease none)
  | first :: rest => .ok (rest.foldl (fun greatest release =>
      if (compare greatest release).isLE then release else greatest) first)

/-- The answer to a question on a disk, if the published releases are known or are not to be had. -/
def Question.answer (d : Disk) (feed : Except Failure Published) :
    (question : Question) → Except Failure question.Result
  | latest line => feed.bind (·.release line)
  | greatest => feed.bind (·.greatest)
  | descriptor folder =>
      let path := folder.joinName Descriptor.fileName
      if d.isFile path then
        match d.readText path with
        | .ok content =>
            Descriptor.parse content folder.name path fun line => feed.bind (·.release line)
        | .error fault => .error (.io path fault)
      else .error (.missingDescriptor path)

/-- Whether the published releases matter to a question: for a descriptor, if its least release is given
as a line. -/
def Question.asksFeed (d : Disk) : Question → Bool
  | latest _ | greatest => true
  | descriptor folder => match d.readText (folder.joinName Descriptor.fileName) with
      | .ok content => (Descriptor.lineToResolve? content).isSome
      | .error _ => false

/-! ## The feed -/

/-- The published releases that the feed on a disk gives. -/
def Context.feedOn (context : Context) (d : Disk) : Except Failure Published :=
  if d.isFile context.config.feed then
    match d.readText context.config.feed with
    | .ok feed => Feed.latest feed context.table.keys
    | .error fault => .error (.io context.config.feed fault)
  else .error (.missingFile context.config.feed)

/-- The published releases as they are remembered, or else as the feed gives them now. -/
def Context.feedIn (context : Context) (session : Session) : Except Failure Published :=
  match session.published with
  | some published => .ok published
  | none => context.feedOn session.disk

variable {context : Context} {session : Session}

theorem Context.published_run_of_feed (context : Context) (session : Session) :
    context.published.run session = match context.feedIn session with
      | .ok published => .ok published { session with published := some published }
      | .error failure => .error failure session := by
  rw [published_run, feedIn]
  cases known : session.published with
  | some published =>
      dsimp only
      rw [← known]
  | none =>
      dsimp only
      rw [context.readFeed_outcome session]
      rfl

theorem Context.published_outcome (context : Context) (session : Session) :
    context.published.outcome session = context.feedIn session := by
  have run := context.published_run_of_feed session
  cases given : context.feedIn session with
  | ok published =>
      rw [given] at run
      exact outcome_of_ok run
  | error failure =>
      rw [given] at run
      exact outcome_of_error run

theorem Context.published_left (context : Context) (session : Session) :
    (context.published.left session).published = (context.feedIn session).toOption := by
  have run := context.published_run_of_feed session
  cases given : context.feedIn session with
  | ok published =>
      rw [given] at run
      rw [left_of_ok run]
      rfl
  | error failure =>
      rw [given] at run
      rw [left_of_error run]
      cases known : session.published with
      | none => rfl
      | some published => simp [feedIn, known] at given

theorem outcome_bind {α β : Type} {action : Action α} {next : α → Action β}
    {onward : α → Except Failure β} (pure : ∀ value after, (next value).outcome after = onward value) :
    (action >>= next).outcome session = (action.outcome session).bind onward := by
  cases run : action.run session with
  | ok value after =>
      rw [outcome_bind_of_ok run, outcome_of_ok run, pure]
      rfl
  | error failure after =>
      rw [outcome_of_error (run_bind_of_error run), outcome_of_error run]
      rfl

namespace Question

theorem ask_outcome (question : Question) (context : Context) (session : Session) :
    (question.ask context).outcome session = question.answer session.disk (context.feedIn session) := by
  have latest (line : ReleaseLine) : (context.publishedRelease line).outcome session =
      (context.feedIn session).bind (·.release line) := by
    rw [← context.published_outcome]
    exact outcome_bind fun published after => ofExcept_outcome _ _
  cases question with
  | latest line => exact latest line
  | greatest =>
      show context.greatestRelease.outcome session = (context.feedIn session).bind (·.greatest)
      rw [← context.published_outcome]
      refine outcome_bind fun published after => ?_
      unfold Published.greatest
      cases OrderedMap.values published <;> rfl
  | descriptor folder =>
      show (Descriptor.load folder context).outcome session = _
      rw [Descriptor.load_outcome]
      simp only [answer]
      cases session.disk.readText (folder.joinName Descriptor.fileName) with
      | error fault => rfl
      | ok content =>
          have parse : Descriptor.parse content folder.name (folder.joinName Descriptor.fileName)
              (Descriptor.latestFor context session content) = _ :=
            Descriptor.parse_congr fun line resolves => by
              simp only [Descriptor.latestFor, resolves]
              exact latest line
          simp only [parse]

theorem published_bind_left {α : Type} {context : Context} {next : Published → Action α}
    (same : ∀ published, Keeps (· = ·) (next published)) (session : Session) :
    ((context.published >>= next).left session).published = (context.feedIn session).toOption := by
  have left : context.published.left session = (context.published >>= next).left session :=
    left_bind_keeps same
  rw [← left, context.published_left]

theorem publishedRelease_left (context : Context) (line : ReleaseLine) (session : Session) :
    ((context.publishedRelease line).left session).published = (context.feedIn session).toOption :=
  published_bind_left (fun _ => keeps_ofExcept _) session

theorem load_left (folder : Path) (context : Context) (session : Session) :
    ((Descriptor.load folder context).left session).published =
      if (descriptor folder).asksFeed session.disk then (context.feedIn session).toOption
      else session.published := by
  cases read : session.disk.readText (folder.joinName Descriptor.fileName) with
  | ok content =>
      have stays (outcome : Except Failure Descriptor) (between : Session) :
          between = (ofExcept outcome).left between := keeps_ofExcept outcome between
      have run : (Descriptor.load folder context).run session = _ := Descriptor.load_of_text read
      simp only [asksFeed, read]
      cases resolves : Descriptor.lineToResolve? content with
      | some line =>
          rw [resolves] at run
          rw [EStateM.left, run, ← EStateM.left, ← stays]
          exact publishedRelease_left context line session
      | none =>
          rw [resolves] at run
          rw [EStateM.left, run, ← EStateM.left, ← stays]
          rfl
  | error fault =>
      simp only [asksFeed, read, Bool.false_eq_true, if_false]
      have asked : (isFile (folder.joinName Descriptor.fileName)).run session =
          .ok (session.disk.isFile (folder.joinName Descriptor.fileName)) session := rfl
      unfold Descriptor.load
      rw [left_bind_of_ok asked]
      split
      · exact congrArg Session.published (left_of_error (run_bind_of_error (look_of_error read)))
      · rfl

/-- The releases are remembered once a question has read them, and no failure to do so is. -/
theorem ask_published (question : Question) (context : Context) (session : Session) :
    ((question.ask context).left session).published =
      if question.asksFeed session.disk then (context.feedIn session).toOption
      else session.published := by
  cases question with
  | latest line => exact publishedRelease_left context line session
  | greatest =>
      refine published_bind_left (fun published => ?_) session
      cases OrderedMap.values published with
      | nil => exact keeps_throw _
      | cons first rest => exact keeps_pure _
  | descriptor folder => exact load_left folder context session

end Question

/-! ## Runs -/

/-- What happens in a run: a question is asked, or the disk becomes another one. -/
inductive Happening
  | asks (question : Question)
  | changes (made : Disk)

/-- A question and the session that it is asked in. -/
structure Asking where
  question : Question
  session : Session

namespace Asking

/-- The answer that is given. -/
def given (context : Context) (asking : Asking) : Except Failure asking.question.Result :=
  (asking.question.ask context).outcome asking.session

/-- The answer that published releases determine, on the disk as it is then. -/
def determined (feed : Except Failure Published) (asking : Asking) :
    Except Failure asking.question.Result :=
  asking.question.answer asking.session.disk feed

/-- What the feed would give to the question as it is when it is asked, if it can be read. -/
def readable? (context : Context) (asking : Asking) : Option Published :=
  if asking.question.asksFeed asking.session.disk then (context.feedOn asking.session.disk).toOption
  else none

end Asking

namespace Context

variable {happenings : List Happening} {earlier later : List Asking} {asking : Asking}

/-- The questions of a run in turn. -/
def askings (context : Context) : List Happening → Session → List Asking
  | [], _ => []
  | .asks question :: happenings, session =>
      ⟨question, session⟩ :: context.askings happenings ((question.ask context).left session)
  | .changes made :: happenings, session => context.askings happenings { session with disk := made }

/-- A question leaves what it would read to be remembered, unless something is already. -/
theorem published_after (context : Context) (question : Question) (session : Session) :
    ((question.ask context).left session).published =
      session.published.or (Asking.readable? context ⟨question, session⟩) := by
  rw [question.ask_published, feedIn, Asking.readable?]
  cases session.published with
  | some published => exact ite_self _
  | none => rfl

theorem askings_published (split : context.askings happenings session = earlier ++ asking :: later) :
    asking.session.published =
      session.published.or (earlier.findSome? (Asking.readable? context)) := by
  induction happenings generalizing session earlier with
  | nil => simp [askings] at split
  | cons happening happenings ih =>
      cases happening with
      | changes made =>
          have onward : context.askings happenings { session with disk := made } = _ := split
          have remembered := ih onward
          exact remembered
      | asks question =>
          rw [askings] at split
          cases earlier with
          | nil =>
              obtain ⟨rfl, -⟩ := List.cons_eq_cons.mp split
              exact (Option.or_none ..).symm
          | cons first earlier =>
              obtain ⟨rfl, rest⟩ := List.cons_eq_cons.mp split
              rw [ih rest, published_after, Option.or_assoc, List.findSome?_cons]
              cases Asking.readable? context ⟨question, session⟩ <;> rfl

/-- Answers come from the feed as it is then while none could be read, and once one was read they come from
that, whatever the feed becomes. -/
theorem answers_determined (unread : session.published = none)
    (split : context.askings happenings session = earlier ++ asking :: later) :
    ((∀ other ∈ earlier, other.readable? context = none) →
      asking.given context = asking.determined (context.feedOn asking.session.disk)) ∧
    ∀ before first between published, earlier ++ [asking] = before ++ first :: between →
      (∀ other ∈ before, other.readable? context = none) →
      first.readable? context = some published →
      asking.given context = asking.determined (.ok published) := by
  have remembered := askings_published split
  have answered := asking.question.ask_outcome context asking.session
  rw [unread, Option.none_or] at remembered
  have fresh (none : ∀ other ∈ earlier, other.readable? context = none) :
      asking.given context = asking.determined (context.feedOn asking.session.disk) := by
    rw [List.findSome?_eq_none_iff.mpr none] at remembered
    rwa [feedIn, remembered] at answered
  refine ⟨fresh, ?_⟩
  intro before first between published both none read
  obtain rfl | ⟨between, last, rfl⟩ := between.eq_nil_or_concat
  · obtain ⟨rfl, same⟩ := List.append_inj' both rfl
    obtain rfl := List.singleton_inj.mp same
    rw [fresh none]
    unfold Asking.readable? at read
    split at read
    · rw [except_toOption_eq_some.mp read]
    · cases read
  · rw [List.concat_eq_append, ← List.cons_append, ← List.append_assoc] at both
    obtain ⟨rfl, -⟩ := List.append_inj' both rfl
    rw [List.findSome?_append, List.findSome?_eq_none_iff.mpr none, Option.none_or,
      List.findSome?_cons, read] at remembered
    rwa [feedIn, remembered] at answered

/-- A feed that comes late, is read for a descriptor and goes. -/
def passingFeed : List Happening :=
  [.asks (.latest ⟨8, 1⟩), .changes Feed.besideFeed.disk, .asks (.descriptor ⟨"recipe"⟩),
    .changes { root := .empty, here := [] }, .asks (.latest ⟨8, 3⟩)]

theorem answers_determined_passingFeed :
    ∃ first second third published,
      singleLineContext.askings passingFeed { disk := { root := .empty, here := [] } } =
        [first, second, third] ∧
      first.readable? singleLineContext = none ∧
      second.readable? singleLineContext = some published ∧
      singleLineContext.feedOn third.session.disk = .error (.missingFile ⟨"maven-metadata.xml"⟩) ∧
      third.given singleLineContext = third.determined (.ok published) := by
  obtain ⟨first, second, third, split, missing, present, gone⟩ :
      ∃ first second third,
        singleLineContext.askings passingFeed { disk := { root := .empty, here := [] } } =
          [first, second, third] ∧
        first.readable? singleLineContext = none ∧
        (second.readable? singleLineContext).isSome = true ∧
        singleLineContext.feedOn third.session.disk = .error (.missingFile ⟨"maven-metadata.xml"⟩) := by
    refine ⟨_, _, _, rfl, ?_⟩
    decide +kernel
  obtain ⟨published, read⟩ := Option.isSome_iff_exists.mp present
  have last : singleLineContext.askings passingFeed { disk := { root := .empty, here := [] } } =
      [first, second] ++ third :: [] := split
  have determined := (answers_determined rfl last).2 [first] second [third] published rfl
    (List.forall_mem_singleton.mpr missing) read
  exact ⟨first, second, third, published, split, missing, read, gone, determined⟩

end Context

end Cookbook
