import Phrasebook.Proofs.RunSteps

/-! A run behind another one. Its catalogs become what they have become before, so no file changes; and it reports no
change if along the path of each catalog, as the path stands, the file is found that was written without its detours. -/

namespace Phrasebook.Proofs.RepeatedRun

open Catalog CatalogPairs RunSteps SettledCatalogs WrittenFiles

/-- The keys that a run over a project works with: those of its sources, when every one can be searched. -/
def keys? (settings : Settings) (project : Project) : Option (List Key) :=
  match ((Run.search settings).run.run project).1 with
  | .ok found => if found.failed.isEmpty then some found.keys.toList else none
  | .error _ => none

variable {settings : Settings} {options : RunOptions} {project after : Project} {keys : List Key}

theorem runs_of_keys? (found : keys? settings project = some keys) : ∃ searched between,
    Runs (Run.search settings) project searched between ∧ searched.failed.isEmpty = true ∧
      searched.keys.toList = keys := by
  unfold keys? at found
  rcases told : (Run.search settings).run.run project with ⟨answer, between⟩
  rw [told] at found
  cases answer with
  | error failure => cases found
  | ok searched =>
    dsimp only at found
    split at found
    next complete => exact ⟨searched, between, told, complete, Option.some.inj found⟩
    next => cases found

theorem nodup_names_groups (settings : Settings) (sync : Sync) (keys : List Key) :
    (Table.names (Update.ofKeys settings sync keys).groups).Nodup :=
  nodup_names_groupByNamespace settings.extraction.ignoredNamespaces keys

/-- Catalogs are apart when no two of them are kept at one place, detours aside. -/
def Apart (update : Update) : Prop :=
  ∀ pair ∈ pairs update, ∀ other ∈ pairs update,
    Files.normalized (rawPath update pair) = Files.normalized (rawPath update other) → pair = other

/-- Catalogs are inside when no path leads out of the project. -/
def Inside (update : Update) : Prop := ∀ pair ∈ pairs update, ".." ∉ Files.placeOf (rawPath update pair)

section Places

variable {update : Update} (inside : Inside update)
include inside

theorem place_change {files : Files} {pair : Pair} (member : pair ∈ pairs update) :
    Files.placeOf (change update files pair).path = Files.placeOf (rawPath update pair) :=
  placeOf_normalized (inside pair member)

variable (apart : Apart update)
include apart

omit inside in
theorem eq_of_place {pair other : Pair} (member : pair ∈ pairs update) (otherMember : other ∈ pairs update)
    (same : Files.placeOf (rawPath update pair) = Files.placeOf (rawPath update other)) : pair = other :=
  apart pair member other otherMember (congrArg Place.path same)

theorem updated_of_writes {extracted written : Project}
    (storing : Runs ((((pairs update).map (change update extracted.files)).filter
      (CatalogChange.isUpdate update.settings.extraction)).forM (Run.write update.settings.extraction))
        extracted () written) : Updated update extracted.files written.files := by
  have among {catalog : CatalogChange} (member : catalog ∈ ((pairs update).map (change update extracted.files)).filter
      (CatalogChange.isUpdate update.settings.extraction)) :
      ∃ pair ∈ pairs update, changes update extracted.files pair = true ∧ change update extracted.files pair = catalog := by
    obtain ⟨listed, isUpdate⟩ := List.mem_filter.mp member
    obtain ⟨pair, pairMember, rfl⟩ := List.mem_map.mp listed
    exact ⟨pair, pairMember, isUpdate, rfl⟩
  refine ⟨fun place => folders_of_writes storing, fun pair member changed => ?_, fun pair member same => ?_⟩
  · have made := made_of_writes storing ?_ (change update extracted.files pair)
      (List.mem_filter.mpr ⟨List.mem_map_of_mem member, changed⟩)
    · rw [place_change inside member] at made
      exact made
    · intro one oneMember other otherMember place
      obtain ⟨pair, pairMember, _, rfl⟩ := among oneMember
      obtain ⟨second, secondMember, _, rfl⟩ := among otherMember
      rw [place_change inside pairMember, place_change inside secondMember] at place
      rw [eq_of_place apart pairMember secondMember place]
  · refine kept_of_writes storing fun catalog catalogMember place => ?_
    obtain ⟨other, otherMember, changed, rfl⟩ := among catalogMember
    rw [place_change inside otherMember] at place
    rw [eq_of_place apart member otherMember place, changed] at same
    cases same

end Places

theorem updated_of_runs {changed : Bool} (found : keys? settings project = some keys) (stored : options.isDry = false)
    (apart : Apart (Update.ofKeys settings options.sync keys))
    (inside : Inside (Update.ofKeys settings options.sync keys))
    (first : Runs (Run.update settings options) project changed after) :
    Readable (Update.ofKeys settings options.sync keys) project.files ∧
      Updated (Update.ofKeys settings options.sync keys) project.files after.files := by
  obtain ⟨searched, _, searching, _, same⟩ := runs_of_keys? found
  obtain ⟨other, _, catalogs, searchingAgain, _, made, extracted, written, files, afterFiles, storing⟩ :=
    of_runs_update stored first
  obtain ⟨rfl, -⟩ := searching.unique searchingAgain
  rw [same] at made
  obtain ⟨readable, rfl⟩ := (outcome_eq_ok_iff (nodup_names_groups settings options.sync keys)).mp made
  rw [← files] at storing readable ⊢
  rw [afterFiles]
  exact ⟨readable, updated_of_writes inside apart storing⟩

/-- A run behind one that has succeeded and is not dry changes no file. It reports no change just if the path of every
catalog, as it stands, leads to the file that is kept there. The values made up for keys are texts, or others that a
catalog can hold. -/
theorem update_update {changed : Bool} (json : settings.extraction.format = .json)
    (blank : settings.extraction.indentation.Blank)
    (plain : ∀ request, (settings.extraction.defaultSource.value request).Storable)
    (found : keys? settings project = some keys) (again : keys? settings after = some keys)
    (apart : Apart (Update.ofKeys settings options.sync keys))
    (inside : Inside (Update.ofKeys settings options.sync keys)) (stored : options.isDry = false)
    (first : (Run.update settings options).run.run project = (.ok changed, after)) (isDry : Bool) :
    ∃ result later, (Run.update settings { options with isDry }).run.run after = (.ok result, later) ∧
      later.files = after.files ∧
      (result = false ↔ ∀ pair ∈ pairs (Update.ofKeys settings options.sync keys),
        Leads after.files (rawPath (Update.ofKeys settings options.sync keys) pair)) := by
  have distinct := nodup_names_groups settings options.sync keys
  obtain ⟨readable, updated⟩ := updated_of_runs found stored apart inside first
  obtain ⟨searched, between, searching, complete, same⟩ := runs_of_keys? again
  subst same
  have settled {pair : Pair} (member : pair ∈ pairs (Update.ofKeys settings options.sync searched.keys.toList)) :=
    settled_of_updated json plain distinct blank readable updated member
  have made := (outcome_eq_ok_iff distinct).mpr ⟨fun pair member => (settled member).readable, rfl⟩
  -- what counts as changed has been written before, and with the same content
  have there : ∀ catalog ∈ ((pairs (Update.ofKeys settings options.sync searched.keys.toList)).map
      (change (Update.ofKeys settings options.sync searched.keys.toList) after.files)).filter
        (CatalogChange.isUpdate settings.extraction),
      after.files.canWrite catalog.path = true ∧ after.files.find? (Files.placeOf catalog.path) =
        some (.text (catalogText settings.extraction catalog.content)) := by
    intro catalog member
    obtain ⟨listed, changed⟩ := List.mem_filter.mp member
    obtain ⟨pair, pairMember, rfl⟩ := List.mem_map.mp listed
    have astray := (settled pairMember).changes_iff.mp changed
    obtain ⟨known, able⟩ := updated.made pair pairMember ((settled pairMember).written astray)
    rw [place_change inside pairMember, (settled pairMember).content]
    exact ⟨able, known⟩
  obtain ⟨later, runs, files⟩ : ∃ later, Runs (Run.update settings { options with isDry }) after _ later ∧ _ :=
    runs_update searching complete made there
  refine ⟨_, later, runs, files, ?_⟩
  rw [List.any_map, List.any_eq_false]
  refine forall₂_congr fun pair member => ?_
  exact (not_congr (settled member).changes_iff).trans not_not

def closedPath : String := "\x7b\x7blng\x7d\x7d/\x7b\x7bns\x7d\x7d.json"

def openPath : String := "\x7b\x7blng\x7d\x7d/\x7b\x7bns\x7d\x7d/"

/-- Settings with one locale and a plugin that asks for one key. -/
def oneKey (template : String) : Settings where
  locales := ["en"]
  extraction := { output := .template template, primaryLanguage := some "en", order := .unsorted }
  plugins := [{ title := "one key", atEnd := some { steps := [.add { text := some "a" }] } }]

def firstRun (template : String) : Except Failure Bool × Project := (Run.update (oneKey template) {}).run.run {}

def secondRun (template : String) : Except Failure Bool × Project :=
  (Run.update (oneKey template) {}).run.run (firstRun template).2

/-- Where the path ends in a name, the second run reports no change. -/
theorem update_update_of_closed_path : (firstRun closedPath).1 = .ok true ∧ (secondRun closedPath).1 = .ok false ∧
    (secondRun closedPath).2.files = (firstRun closedPath).2.files := by
  have key : keys? (oneKey closedPath) {} = some [{ text := "a", namespaceName := "translation" }] := by decide +kernel
  have again : keys? (oneKey closedPath) (firstRun closedPath).2 =
      some [{ text := "a", namespaceName := "translation" }] := by decide +kernel
  have apart : Apart (Update.ofKeys (oneKey closedPath) {} [{ text := "a", namespaceName := "translation" }]) := by
    unfold Apart
    decide +kernel
  have inside : Inside (Update.ofKeys (oneKey closedPath) {} [{ text := "a", namespaceName := "translation" }]) := by
    unfold Inside
    decide +kernel
  have changed : (firstRun closedPath).1 = .ok true := by decide +kernel
  have blank : (oneKey closedPath).extraction.indentation.Blank := trivial
  have plain (request : DefaultRequest) : ((oneKey closedPath).extraction.defaultSource.value request).Storable :=
    .text ""
  obtain ⟨result, later, runs, files, none⟩ := update_update rfl blank plain key again apart inside rfl
    (Prod.ext changed rfl) false
  have unchanged : result = false := by
    refine none.mpr ?_
    unfold Leads
    decide +kernel
  have second : secondRun closedPath = (.ok result, later) := runs
  exact ⟨changed, by rw [second, unchanged], by rw [second, files]⟩

/-- Where the path ends in a slash, the catalog is not found again, and every run reports a change. -/
theorem open_path_counts_as_changed : (firstRun openPath).1 = .ok true ∧ (secondRun openPath).1 = .ok true ∧
    (secondRun openPath).2.files = (firstRun openPath).2.files := by
  decide +kernel

end Phrasebook.Proofs.RepeatedRun
