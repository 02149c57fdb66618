import Cookbook.Proofs.Markup.Reading

/-!
Reading the versions of a feed back: a written document gives the versions of its `version` elements,
in order and as they were before their special characters were escaped.
-/

namespace Cookbook.Markup

/-! ## References -/

theorem resolveIn_escaped (c : Char) (cs : List Char) :
    resolveIn none (escaped c ++ cs) = (resolveIn none cs).map (c :: ·) := by
  unfold escaped
  split_ifs with ampersand less greater double single
  · subst ampersand; rfl
  · subst less; rfl
  · subst greater; rfl
  · subst double; rfl
  · subst single; rfl
  · rw [List.singleton_append, resolveIn, if_neg ampersand]

theorem resolveIn_flatMap_escaped (version cs : List Char) :
    resolveIn none (version.flatMap escaped ++ cs) = (resolveIn none cs).map (version ++ ·) := by
  induction version with
  | nil => exact (except_map_id _).symm
  | cons c version ih =>
      rw [List.flatMap_cons, List.append_assoc, resolveIn_escaped, ih, except_map_map]
      rfl

theorem resolveIn_plain {front : List Char} (plain : '&' ∉ front) (cs : List Char) :
    resolveIn none (front ++ cs) = (resolveIn none cs).map (front ++ ·) := by
  induction front with
  | nil => exact (except_map_id _).symm
  | cons c front ih =>
      rw [List.mem_cons, not_or] at plain
      rw [List.cons_append, resolveIn, if_neg (Ne.symm plain.1), ih plain.2, except_map_map]
      rfl

theorem no_ampersand_of_blank {cs : List Char} (blank : cs.all Text.isBlank = true) : '&' ∉ cs := by
  intro member
  have blank := List.all_eq_true.mp blank _ member
  cases blank

/-! ## Texts of version elements -/

theorem isGap_of_not_blank {c : Char} (shown : Text.isBlank c = false) : isGap c = false := by
  rw [Bool.eq_false_iff] at shown ⊢
  intro gap
  simp only [isGap, Bool.or_eq_true, decide_eq_true_eq] at gap
  rcases gap with ((rfl | rfl) | rfl) | rfl <;> exact shown rfl

theorem head?_escaped {c d : Char} (first : d ∈ (escaped c).head?) : d = c ∨ d = '&' := by
  unfold escaped at first
  split_ifs at first <;> cases first <;> simp

theorem getLast?_escaped {c d : Char} (last : d ∈ (escaped c).getLast?) : d = c ∨ d = ';' := by
  unfold escaped at last
  split_ifs at last <;> cases last <;> simp

theorem escaped_ne_nil (c : Char) : escaped c ≠ [] := by
  unfold escaped
  split_ifs <;> simp

theorem head?_flatMap_escaped {version : List Char} (settled : Text.Settled version) :
    ∀ d ∈ (version.flatMap escaped).head?, isGap d = false := by
  obtain ⟨c, cs, rfl⟩ := List.exists_cons_of_ne_nil settled.nonempty
  intro d first
  rw [List.flatMap_cons, Text.head?_append_of_ne_nil (escaped_ne_nil c)] at first
  obtain rfl | rfl := head?_escaped first
  · exact isGap_of_not_blank (settled.start d rfl)
  · rfl

theorem getLast?_flatMap_escaped {version : List Char} (settled : Text.Settled version) :
    ∀ d ∈ (version.flatMap escaped).getLast?, isGap d = false := by
  obtain rfl | ⟨cs, c, rfl⟩ := List.eq_nil_or_concat version
  · exact absurd rfl settled.nonempty
  · intro d last
    rw [List.concat_eq_append, List.flatMap_append, List.flatMap_singleton,
      Text.getLast?_append_of_ne_nil _ (escaped_ne_nil c)] at last
    obtain rfl | rfl := getLast?_escaped last
    · exact isGap_of_not_blank (settled.last d (by simp))
    · rfl

theorem all_dropGaps {p : Char → Bool} {cs : List Char} (all : cs.all p = true) :
    (dropGaps cs).all p = true := by
  rw [List.all_eq_true] at all ⊢
  exact fun c member => all c ((List.dropWhile_suffix _).subset member)

theorem all_dropLastGaps {p : Char → Bool} {cs : List Char} (all : cs.all p = true) :
    (dropLastGaps cs).all p = true := by
  rw [dropLastGaps, List.all_reverse]
  exact all_dropGaps (by rwa [List.all_reverse])

/-- A version element gives one text, the escaped version with what blanks are no gaps around it. -/
theorem textEvents_entry (entry : Entry) : ∃ before after,
    before.all Text.isBlank = true ∧ after.all Text.isBlank = true ∧
      textEvents entry.chars = [.text (before ++ entry.version.flatMap escaped ++ after)] := by
  refine ⟨dropGaps entry.before, dropLastGaps entry.after, all_dropGaps entry.blankBefore,
    all_dropLastGaps entry.blankAfter, ?_⟩
  have nonempty : entry.version.flatMap escaped ≠ [] := by
    obtain ⟨c, cs, version⟩ := List.exists_cons_of_ne_nil entry.settled.nonempty
    simp [version, escaped_ne_nil]
  have front : dropGaps entry.chars =
      dropGaps entry.before ++ (entry.version.flatMap escaped ++ entry.after) := by
    rw [Entry.chars, List.append_assoc]
    refine Text.dropWhile_append_of_stop _ ?_
    rw [Text.head?_append_of_ne_nil nonempty]
    exact head?_flatMap_escaped entry.settled
  have back : dropLastGaps (dropGaps entry.chars) =
      dropGaps entry.before ++ entry.version.flatMap escaped ++ dropLastGaps entry.after := by
    rw [front, ← List.append_assoc, dropLastGaps, List.reverse_append]
    unfold dropGaps
    rw [Text.dropWhile_append_of_stop, List.reverse_append, List.reverse_reverse]
    · rfl
    · intro d first
      rw [List.head?_reverse, Text.getLast?_append_of_ne_nil _ nonempty] at first
      exact getLast?_flatMap_escaped entry.settled d first
  rw [textEvents, back, if_neg]
  rw [front]
  simp [nonempty]

theorem resolve_entry (entry : Entry) {before after : List Char}
    (blankBefore : before.all Text.isBlank = true) (blankAfter : after.all Text.isBlank = true) :
    resolve (before ++ entry.version.flatMap escaped ++ after) =
      .ok (before ++ entry.version ++ after) := by
  have last : resolveIn none after = .ok after := by
    simpa [resolveIn, Except.map] using resolveIn_plain (no_ampersand_of_blank blankAfter) []
  rw [resolve, List.append_assoc, resolveIn_plain (no_ampersand_of_blank blankBefore),
    resolveIn_flatMap_escaped, last]
  simp [Except.map]

/-! ## Versions of documents -/

open Feed

theorem versionTexts_outside (cs : List Char) (events : List Event) :
    versionTexts false (textEvents cs ++ events) = versionTexts false events := by
  unfold textEvents
  split <;> rfl

theorem versionTexts_entry (entry : Entry) (events : List Event) :
    versionTexts true (textEvents entry.chars ++ events) =
      (versionTexts true events).map (String.ofList entry.version :: ·) := by
  obtain ⟨before, after, blankBefore, blankAfter, event⟩ := textEvents_entry entry
  rw [event, List.singleton_append, versionTexts]
  simp only [resolve_entry entry blankBefore blankAfter, if_true]
  show (versionTexts true events >>= fun texts => .ok (String.ofList (Text.trimmed _) :: texts)) = _
  rw [Text.trimmed_around entry.settled blankBefore blankAfter]
  cases versionTexts true events <;> rfl

theorem versionTexts_content (content : Content) (events : List Event) :
    versionTexts false (content.events ++ events) =
      (versionTexts false events).map (content.versions ++ ·) := by
  induction content generalizing events with
  | last text =>
      rw [Content.events, versionTexts_outside]
      exact (except_map_id _).symm
  | beside text aside rest ih =>
      rw [Content.events, List.append_assoc, versionTexts_outside, List.cons_append]
      exact ih events
  | element text tag other inside gaps rest ihInside ihRest =>
      have notInside : (false || decide (tag.name.chars = "version".toList)) = false := by
        rw [Bool.false_or]
        exact decide_eq_false other
      rw [Content.events, List.append_assoc, versionTexts_outside, List.cons_append, versionTexts,
        notInside, List.append_assoc, ihInside, List.cons_append, versionTexts, Bool.false_and, ihRest,
        except_map_map]
      simp only [Content.versions, List.append_assoc]
  | version text attributes gaps entry closingGaps rest ih =>
      rw [Content.events, List.append_assoc, versionTexts_outside, List.cons_append, versionTexts,
        List.append_assoc]
      show versionTexts true (textEvents entry.chars ++ (.closing versionName.chars :: rest.events ++ events)) = _
      rw [versionTexts_entry]
      show ((versionTexts false (rest.events ++ events)).map _) = _
      rw [ih, except_map_map]
      rfl

/-- The events of a document give its versions, and the reader makes those events unless an instruction
holds a `>`, where it takes the instruction to be cut off. -/
theorem versions_document (document : Document) :
    versionTexts false document.content.events = .ok document.versions ∧
    Feed.versions document.text =
      if document.endsAtAngle then .ok document.versions else .error (.malformedFeed cutOff) := by
  have texts : versionTexts false document.content.events = .ok document.content.versions := by
    simpa [versionTexts, Except.map] using versionTexts_content document.content []
  refine ⟨texts, ?_⟩
  unfold Feed.versions Document.text Document.endsAtAngle
  rw [String.toList_ofList, document.events_chars]
  cases ends : document.content.endsAtAngle with
  | false =>
      have read : document.content.onto (.ok []) = .error cutOff := by simp [Content.onto, ends]
      rw [read]
      rfl
  | true =>
      have read : document.content.onto (.ok []) = .ok document.content.events := by
        simp [Content.onto, ends, Except.map]
      have onward : (Except.ok document.content.events >>= versionTexts false) =
          .ok document.content.versions := texts
      rw [read, onward]
      rfl

/-- A feed behind an instruction that holds a `>`. -/
def instructedFeed : Document where
  content := .beside ⟨[], by decide⟩
    (.instruction ⟨['p'], by decide, by decide⟩ [' ', 'a', '>', 'b'] (by decide) (by decide))
    (.element ⟨[], by decide⟩ ⟨⟨"metadata".toList, by decide, by decide⟩, [], ⟨[], rfl⟩⟩ (by decide)
      (.version ⟨[], by decide⟩ [] ⟨[], rfl⟩ { version := ['8', '.', '1', '.', '0'] } ⟨[], rfl⟩
        (.last ⟨[], by decide⟩))
      ⟨[], rfl⟩ (.last ⟨[], by decide⟩))

theorem versions_document_fails :
    instructedFeed.text = "<?p a>b?><metadata><version>8.1.0</version></metadata>" ∧
    ¬ ∀ document : Document, Feed.versions document.text = .ok document.versions := by
  refine ⟨by decide +kernel, ?_⟩
  intro reads
  have cut : Feed.versions instructedFeed.text = .error (.malformedFeed cutOff) := by
    decide +kernel
  rw [reads instructedFeed] at cut
  cases cut

end Cookbook.Markup
