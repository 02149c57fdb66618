import Cookbook.Proofs.Placeholder.Settling

/-!
Whole lines in the place of markers, as settings files have them. The first edit whose marker a line
mentions decides what becomes of the line (`replaceAll_wholeLines`). With a target that takes everything
from local places, the settings thus keep their own lines and name the local repository, and nothing else
(`resolve_staysLocal`).
-/

namespace Cookbook

open Text (IsMarker mentions)

namespace Edit

def wholeLines (pairs : List (String × List String)) : List Edit :=
  pairs.map fun pair => lines pair.1 pair.2

/-- What the first of several markers puts in the place of a line that mentions it. -/
def firstOf (pairs : List (String × List String)) (line : String) : List String :=
  match pairs.find? fun pair => mentions line pair.1 with
  | some pair => pair.2
  | none => [line]

variable {marker line : String} {values : List String} {pairs : List (String × List String)}

theorem firstOf_cons (pair : String × List String) (pairs : List (String × List String)) (line : String) :
    firstOf (pair :: pairs) line = if mentions line pair.1 then pair.2 else firstOf pairs line := by
  rw [firstOf, List.find?_cons]
  cases mentions line pair.1 <;> rfl

theorem firstOf_unsigned (marked : ∀ pair ∈ pairs, IsMarker pair.1.toList) (unsigned : '$' ∉ line.toList) :
    firstOf pairs line = [line] := by
  induction pairs with
  | nil => rfl
  | cons pair pairs ih =>
      obtain ⟨here, rest⟩ := List.forall_mem_cons.mp marked
      rw [firstOf_cons, Text.mentions_of_unsigned here unsigned, if_neg Bool.false_ne_true, ih rest]

theorem replaceAll_wholeLines (proper : ∀ edit ∈ wholeLines pairs, edit.Proper) (written : List String) :
    replaceAll (wholeLines pairs) written = written.flatMap (firstOf pairs) := by
  induction pairs generalizing written with
  | nil =>
      have same : firstOf [] = fun line => [line] := rfl
      rw [same, List.flatMap_singleton']
      rfl
  | cons pair pairs ih =>
      obtain ⟨marker, values⟩ := pair
      obtain ⟨⟨-, unsigned⟩, rest⟩ := List.forall_mem_cons.mp proper
      have marked : ∀ pair ∈ pairs, IsMarker pair.1.toList := fun pair member =>
        (rest _ (List.mem_map_of_mem member)).marked
      -- What was put in has no dollar sign, so no later edit takes it for a line with a marker.
      have later : values.flatMap (firstOf pairs) = values := by
        rw [List.flatMap_congr fun value member => firstOf_unsigned marked (unsigned value member),
          List.flatMap_singleton']
      calc replaceAll (wholeLines ((marker, values) :: pairs)) written
          = ((lines marker values).replace written).flatMap (firstOf pairs) := ih rest _
        _ = written.flatMap (firstOf ((marker, values) :: pairs)) := by
            rw [replace, List.flatMap_assoc]
            refine List.flatMap_congr fun line _ => ?_
            rw [firstOf_cons]
            cases mentioned : mentions line marker <;>
              simp [Edit.marker, generate, mentioned, later]

end Edit

/-! ## Local settings -/

/-- What becomes of a line of a settings file if all comes from local places: it names the local
repository in the place of the plugin's, no public one, and stays if it asks for none. -/
def localLine (repository line : String) : Option String :=
  if mentions line "$AGP_REPOSITORY" then if repository = "" then none else some repository
  else if Template.settings.markers.any (mentions line) then none
  else some line

/-- That a plan leaves the lines of a settings file that mention no marker, and of the others the local
repository once for each that asks for the plugin's. -/
structure Plan.StaysLocal (plan : Plan) (repository : String) : Prop where
  eachLine : ∀ lines, plan.apply .settings lines = lines.filterMap (localLine repository)
  nothingElse : ∀ lines, ∀ line ∈ plan.apply .settings lines,
    line ∈ lines ∧ (∀ marker ∈ Template.settings.markers, mentions line marker = false) ∨
      line = repository ∧ repository ≠ "" ∧ ∃ asking ∈ lines, mentions asking "$AGP_REPOSITORY" = true
  nothingPublic : ∀ lines, ∀ line ∈ publicPluginRepositories ++ publicDependencyRepositories,
    line ≠ repository → (plan.apply .settings lines).count line = lines.count line

section Local

variable {repository line : String} {values : Values}

theorem firstOf_local (repository line : String) :
    Edit.firstOf [("$AGP_REPOSITORY", if repository = "" then [] else [repository]),
      ("$PLUGIN_REPOSITORIES", []), ("$DEPENDENCY_REPOSITORIES", [])] line =
      (localLine repository line).toList := by
  simp only [Edit.firstOf_cons, localLine, Template.markers, List.any_cons, List.any_nil]
  by_cases asks : mentions line "$AGP_REPOSITORY" = true
  · by_cases unnamed : repository = "" <;> simp [asks, unnamed]
  · by_cases plugins : mentions line "$PLUGIN_REPOSITORIES" = true <;>
      by_cases dependencies : mentions line "$DEPENDENCY_REPOSITORIES" = true <;>
        simp [asks, plugins, dependencies, Edit.firstOf]

theorem localLine_eq_some {made : String} (left : localLine repository line = some made) :
    made = line ∧ (∀ marker ∈ Template.settings.markers, mentions line marker = false) ∨
      made = repository ∧ repository ≠ "" ∧ mentions line "$AGP_REPOSITORY" = true := by
  unfold localLine at left
  split at left
  · next asks =>
      split at left
      · cases left
      · next named =>
          cases left
          exact .inr ⟨rfl, named, asks⟩
  · split at left
    · cases left
    · next unmarked =>
        cases left
        exact .inl ⟨rfl, by simpa using unmarked⟩

theorem localLine_plain (plain : ∀ marker ∈ Template.settings.markers, mentions line marker = false) :
    localLine repository line = some line := by
  have first := plain "$AGP_REPOSITORY" List.mem_cons_self
  have unmarked : Template.settings.markers.any (mentions line) = false := by
    simpa using plain
  rw [localLine, first, unmarked]
  rfl

theorem count_filterMap_localLine (other : line ≠ repository)
    (plain : ∀ marker ∈ Template.settings.markers, mentions line marker = false) (lines : List String) :
    (lines.filterMap (localLine repository)).count line = lines.count line := by
  induction lines with
  | nil => rfl
  | cons first lines ih =>
      by_cases same : first = line
      · rw [same, List.filterMap_cons_some (localLine_plain plain), List.count_cons_self,
          List.count_cons_self, ih]
      · rw [List.count_cons_of_ne same]
        cases left : localLine repository first with
        | none => rw [List.filterMap_cons_none left, ih]
        | some made =>
            have different : made ≠ line := by
              obtain ⟨rfl, -⟩ | ⟨rfl, -⟩ := localLine_eq_some left
              · exact same
              · exact other.symm
            rw [List.filterMap_cons_some left, List.count_cons_of_ne different, ih]

theorem Plan.staysLocal_of_noPublic (located : values.agpRepository = repository)
    (noPlugins : values.pluginRepositories = []) (noDependencies : values.dependencyRepositories = [])
    (unsigned : '$' ∉ repository.toList) : (Plan.replace values).StaysLocal repository := by
  have marked := Template.settings.markers_marked
  simp only [Template.markers, List.forall_mem_cons] at marked
  have eachLine : ∀ lines,
      (Plan.replace values).apply .settings lines = lines.filterMap (localLine repository) := by
    intro lines
    have edits : Template.settings.replaceEdits values = Edit.wholeLines
        [("$AGP_REPOSITORY", if repository = "" then [] else [repository]),
          ("$PLUGIN_REPOSITORIES", []), ("$DEPENDENCY_REPOSITORIES", [])] := by
      rw [Template.replaceEdits, located, noPlugins, noDependencies]
      rfl
    have proper : ∀ edit ∈ Template.settings.replaceEdits values, edit.Proper := by
      simp only [edits, Edit.wholeLines, List.map_cons, List.map_nil, List.forall_mem_cons, Edit.Proper]
      refine ⟨⟨marked.1, ?_⟩, ⟨marked.2.1, List.forall_mem_nil _⟩,
        ⟨marked.2.2.1, List.forall_mem_nil _⟩, List.forall_mem_nil _⟩
      split <;> simp [unsigned]
    rw [edits] at proper
    rw [apply, edits, ← Edit.replaceAll, Edit.replaceAll_wholeLines proper,
      List.filterMap_eq_flatMap_toList]
    exact List.flatMap_congr fun line _ => firstOf_local repository line
  refine ⟨eachLine, ?_, ?_⟩
  · intro lines made member
    rw [eachLine] at member
    obtain ⟨line, inside, left⟩ := List.mem_filterMap.mp member
    obtain ⟨rfl, plain⟩ | ⟨rfl, named, asks⟩ := localLine_eq_some left
    · exact .inl ⟨inside, plain⟩
    · exact .inr ⟨rfl, named, line, inside, asks⟩
  · intro lines line isPublic other
    rw [eachLine]
    refine count_filterMap_localLine other ?_ lines
    intro marker member
    exact Text.mentions_of_unsigned (Template.settings.markers_marked marker member)
      (repositories_plain line isPublic).1

end Local

/-- A release that is built with a local Gradle gets settings that ask for nothing but the local
repository. -/
theorem Target.resolve_staysLocal (release : Release) (descriptor : Descriptor) (context : Context)
    {path repository kotlin : String} (gradle : context.config.gradlePath = some path)
    (located : context.config.repository = some repository) (unsigned : '$' ∉ repository.toList)
    (mapped : context.kotlinVersion release.line = .ok kotlin) :
    ∃ target plan, Target.resolve release none context = .ok target ∧
      (Mode.release target).plan descriptor context = .ok plan ∧ plan.StaysLocal repository := by
  have resolved : Target.resolve release none context = .ok (localOnly release path repository) := by
    unfold resolve
    rw [gradle, located]
  obtain ⟨companions, paired⟩ : ∃ companions, context.companions release.line = .ok companions := by
    unfold Context.kotlinVersion at mapped
    cases paired : context.companions release.line with
    | ok companions => exact ⟨companions, rfl⟩
    | error failure =>
        rw [paired] at mapped
        cases mapped
  have planned : ∃ values, (Mode.release (localOnly release path repository)).plan descriptor context =
        .ok (.replace values) ∧ values.agpRepository = repository ∧ values.pluginRepositories = [] ∧
        values.dependencyRepositories = [] := by
    simp only [Mode.plan, localOnly, paired]
    exact ⟨_, rfl, rfl, rfl, rfl⟩
  obtain ⟨values, planned, repositories, noPlugins, noDependencies⟩ := planned
  exact ⟨_, _, resolved, planned,
    Plan.staysLocal_of_noPublic repositories noPlugins noDependencies unsigned⟩

def localContext : Context :=
  { singleLineContext with
    config := { gradlePath := some "/opt/gradle.zip", repository := some "maven(\"/repo\")" } }

/-- A line that asks for the plugin's repository and for public ones, and one that names a public one. -/
theorem resolve_staysLocal_sharedLine :
    ∃ target plan, Target.resolve ⟨8, 1, 4, .final, 0⟩ none localContext = .ok target ∧
      (Mode.release target).plan singleLineRecipe localContext = .ok plan ∧
      plan.apply .settings ["repositories \x7b", "$AGP_REPOSITORY $PLUGIN_REPOSITORIES",
          "$DEPENDENCY_REPOSITORIES", "        google()", "\x7d"] =
        ["repositories \x7b", "maven(\"/repo\")", "        google()", "\x7d"] := by
  have mapped : localContext.kotlinVersion ⟨8, 1⟩ = .ok "1.9.0" := by decide +kernel
  obtain ⟨target, plan, resolved, planned, stays⟩ := Target.resolve_staysLocal ⟨8, 1, 4, .final, 0⟩
    singleLineRecipe localContext rfl rfl (by decide +kernel) mapped
  exact ⟨target, plan, resolved, planned, (stays.eachLine _).trans (by decide +kernel)⟩

end Cookbook
