import Cookbook.Recipe.Descriptor

/-!
# The releases that a recipe supports

`Descriptor.supported_range`: they are one stretch of the order of releases. Its two ends are of
different kinds, as the least one is a release and the greatest a whole line; the stretch has no gaps
since a release that is not before another is not of an earlier line either (`Release.line_mono`).
-/

namespace Cookbook

namespace Release

variable {a b c : Release}

/-- What tells two releases of one line apart. -/
def compareInLine : Release → Release → Ordering :=
  compareLex (compareOn micro) (compareLex (compareOn stage) (compareOn number))

theorem compare_eq_then (a b : Release) :
    compare a b = (compare a.line b.line).then (compareInLine a b) :=
  (Ordering.then_assoc (compare a.major b.major) (compare a.minor b.minor) (compareInLine a b)).symm

theorem line_mono (notAfter : (compare a b).isLE) : (compare a.line b.line).isLE := by
  rw [compare_eq_then, Ordering.isLE_then_iff_or] at notAfter
  obtain less | ⟨same, -⟩ := notAfter
  · exact Ordering.isLE_of_eq_lt less
  · exact Ordering.isLE_of_eq_eq same

theorem isLE_total (a b : Release) : (compare a b).isLE ∨ (compare b a).isLE := by
  by_cases less : compare a b = .lt
  · exact .inl (Ordering.isLE_of_eq_lt less)
  · exact .inr (Std.OrientedCmp.isLE_of_isGE (Ordering.ne_lt_iff_isGE.mp less))

theorem isLE_antisymm (notAfter : (compare a b).isLE) (notBefore : (compare b a).isLE) : a = b :=
  Std.LawfulEqOrd.eq_of_compare (Std.OrientedCmp.isLE_antisymm notAfter notBefore)

end Release

namespace Descriptor

variable {descriptor : Descriptor} {maximum : ReleaseLine} {a b c release : Release}

theorem supports_iff : descriptor.supports release = true ↔
    (compare descriptor.minimum release).isLE ∧
      ∀ maximum, descriptor.maximum = some maximum → (compare release.line maximum).isLE := by
  rw [supports, Bool.and_eq_true, Option.all_eq_true]

theorem supports_between (first : (compare a b).isLE) (second : (compare b c).isLE)
    (low : descriptor.supports a) (high : descriptor.supports c) : descriptor.supports b := by
  rw [supports_iff] at low high ⊢
  refine ⟨Std.TransCmp.isLE_trans low.1 first, ?_⟩
  intro maximum known
  exact Std.TransCmp.isLE_trans (Release.line_mono second) (high.2 maximum known)

theorem supports_of_line (known : descriptor.maximum = some maximum) (line : release.line = maximum)
    (notBelow : compare release descriptor.minimum ≠ .lt) : descriptor.supports release := by
  rw [supports_iff, known]
  refine ⟨Std.OrientedCmp.isLE_of_isGE (Ordering.ne_lt_iff_isGE.mp notBelow), ?_⟩
  rintro _ ⟨⟩
  rw [line]
  exact Std.ReflCmp.isLE_rfl

theorem not_supports_of_line (known : descriptor.maximum = some maximum)
    (above : compare maximum release.line = .lt) : ¬ descriptor.supports release := by
  intro supported
  have within := (supports_iff.mp supported).2 maximum known
  rw [Std.OrientedCmp.gt_iff_lt.mpr above] at within
  cases within

theorem supports_upward (unbounded : descriptor.maximum = none) (notAfter : (compare a b).isLE)
    (supported : descriptor.supports a) : descriptor.supports b := by
  rw [supports_iff] at supported ⊢
  refine ⟨Std.TransCmp.isLE_trans supported.1 notAfter, ?_⟩
  rw [unbounded]
  exact nofun

/-- A release between two that a recipe supports is supported as well. With a greatest line, every
release of that line is supported that is not before the least one, and none of a greater line; without
one, whatever comes after a supported release. The order behind this is total, and the lines of releases
are in the order of these. -/
theorem supported_range :
    (∀ (descriptor : Descriptor) (a b c : Release), (compare a b).isLE → (compare b c).isLE →
      descriptor.supports a → descriptor.supports c → descriptor.supports b) ∧
    (∀ (descriptor : Descriptor) (maximum : ReleaseLine), descriptor.maximum = some maximum →
      (∀ release : Release, release.line = maximum → compare release descriptor.minimum ≠ .lt →
        descriptor.supports release) ∧
      ∀ release : Release, compare maximum release.line = .lt → ¬ descriptor.supports release) ∧
    (∀ (descriptor : Descriptor) (a b : Release), descriptor.maximum = none → (compare a b).isLE →
      descriptor.supports a → descriptor.supports b) ∧
    (∀ a b : Release, (compare a b).isLE ∨ (compare b a).isLE) ∧
    (∀ a b c : Release, (compare a b).isLE → (compare b c).isLE → (compare a c).isLE) ∧
    (∀ a b : Release, (compare a b).isLE → (compare b a).isLE → a = b) ∧
    ∀ a b : Release, (compare a b).isLE → (compare a.line b.line).isLE :=
  ⟨fun _ _ _ _ => supports_between,
    fun _ _ known => ⟨fun _ => supports_of_line known, fun _ => not_supports_of_line known⟩,
    fun _ _ _ => supports_upward, Release.isLE_total, fun _ _ _ => Std.TransCmp.isLE_trans,
    fun _ _ => Release.isLE_antisymm, fun _ _ => Release.line_mono⟩

/-- A recipe whose least release is a preview and whose greatest line has previews of its own. -/
def previewBounds : Descriptor where
  folderName := "recipe"
  title := "recipe"
  destination := "recipe"
  minimum := ⟨7, 1, 0, .beta, 2⟩
  maximum := some ⟨7, 4⟩
  tasks := []
  validationTasks := none
  keywords := []

theorem supported_range_previewBounds :
    previewBounds.supports ⟨7, 1, 0, .rc, 1⟩ ∧ previewBounds.supports ⟨7, 4, 2, .final, 0⟩ ∧
    previewBounds.supports ⟨7, 2, 3, .final, 0⟩ ∧
    previewBounds.supports ⟨7, 4, 0, .alpha, 1⟩ ∧
    ¬ previewBounds.supports ⟨7, 5, 0, .alpha, 1⟩ ∧
    { previewBounds with maximum := none }.supports ⟨8, 0, 0, .dev, 0⟩ ∧
    (compare (⟨7, 1⟩ : ReleaseLine) ⟨7, 5⟩).isLE := by
  obtain ⟨between, bounded, upward, -, -, -, lines⟩ := supported_range
  obtain ⟨within, beyond⟩ := bounded previewBounds ⟨7, 4⟩ rfl
  have low : previewBounds.supports ⟨7, 1, 0, .rc, 1⟩ := by decide
  have high : previewBounds.supports ⟨7, 4, 2, .final, 0⟩ := within _ rfl (by decide)
  have unbounded : { previewBounds with maximum := none }.supports ⟨7, 1, 0, .rc, 1⟩ := by decide
  refine ⟨low, high, ?_, ?_, ?_, ?_, ?_⟩
  · exact between previewBounds ⟨7, 1, 0, .rc, 1⟩ _ ⟨7, 4, 2, .final, 0⟩ (by decide) (by decide) low high
  · exact within _ rfl (by decide)
  · exact beyond _ (by decide)
  · exact upward _ ⟨7, 1, 0, .rc, 1⟩ _ rfl (by decide) unbounded
  · exact lines ⟨7, 1, 0, .rc, 1⟩ ⟨7, 5, 0, .alpha, 1⟩ (by decide)

end Descriptor

end Cookbook
