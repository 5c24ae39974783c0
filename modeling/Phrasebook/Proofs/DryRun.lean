import Phrasebook.Proofs.Announcements

/-! What a dry run tells of the real one. Both find out in the same way what the catalogs become, and only then does
one of them write. There is no way back from a write: a catalog that cannot be written ends the real run, and those
before it stay written. -/

namespace Phrasebook.Proofs.DryRun

open Announcements Catalog RunSteps

variable {α β : Type} {settings : Settings} {extraction : Extraction} {changes : List CatalogChange}
  {before between after : Project}

section Failing

/-- A step fails, from one project to another. -/
def Fails (step : Run α) (before : Project) (failure : Failure) (after : Project) : Prop :=
  step.run.run before = (.error failure, after)

theorem Fails.bind {step : Run α} {next : α → Run β} {failure : Failure} (fails : Fails step before failure after) :
    Fails (step >>= next) before failure after := by
  unfold Fails at fails ⊢
  rw [ExceptT.run_bind, StateT.run_bind, fails]
  rfl

theorem Fails.behind {step : Run α} {next : α → Run β} {value : α} {failure : Failure}
    (runs : Runs step before value between) (fails : Fails (next value) between failure after) :
    Fails (step >>= next) before failure after := by
  unfold Fails Runs at *
  rw [ExceptT.run_bind, StateT.run_bind, runs]
  exact fails

end Failing

section Keeping

/-- A step that leaves the files as they are, whether or not it fails. -/
def KeepsFiles (step : Run α) : Prop := ∀ before, (step.run.run before).2.files = before.files

namespace KeepsFiles

theorem pure (value : α) : KeepsFiles (Pure.pure value) := fun _ => rfl

theorem attempt (result : Except Failure α) : KeepsFiles (Run.attempt result) := fun _ => rfl

theorem throw (failure : Failure) : KeepsFiles (throw failure : Run α) := fun _ => rfl

theorem journal (tell : Project → Journal) :
    KeepsFiles (modify fun project => { project with journal := tell project }) := fun _ => rfl

theorem telling (step : Files → Telling α) : KeepsFiles (Run.telling step) := fun _ => rfl

theorem bind {step : Run α} {next : α → Run β} (one : KeepsFiles step) (two : ∀ value, KeepsFiles (next value)) :
    KeepsFiles (step >>= next) := by
  intro before
  have first := one before
  rw [ExceptT.run_bind, StateT.run_bind]
  rcases told : step.run.run before with ⟨answer, between⟩
  rw [told] at first
  cases answer with
  | error failure => exact first
  | ok value => exact (two value between).trans first

theorem forM {step : α → Run Unit} (each : ∀ item, KeepsFiles (step item)) (items : List α) :
    KeepsFiles (items.forM step) := by
  induction items with
  | nil => exact pure ()
  | cons item items ih => exact (each item).bind fun _ => ih

end KeepsFiles

/-- Up to what the catalogs become, nothing is written. -/
theorem keepsFiles_extract (settings : Settings) (sync : Sync) : KeepsFiles (Run.extract settings sync) := by
  have search : KeepsFiles (Run.search settings) := by
    refine (KeepsFiles.attempt _).bind fun _ => ?_
    exact (KeepsFiles.journal _).bind fun _ => .telling _
  refine search.bind fun found => ?_
  refine (KeepsFiles.journal _).bind fun _ => ?_
  refine (KeepsFiles.telling _).bind fun changes => ?_
  split
  · exact .pure changes
  · exact (KeepsFiles.forM (fun _ => .journal _) _).bind fun _ => .throw _

end Keeping

section Storing

def pathsOf (changes : List CatalogChange) : List String := changes.map CatalogChange.path

/-- The catalogs that change. -/
def updates (extraction : Extraction) (changes : List CatalogChange) : List CatalogChange :=
  changes.filter (CatalogChange.isUpdate extraction)

theorem names_noteUpdates (noted : Runs (Run.noteUpdates extraction changes) before () after) :
    Names .planned (pathsOf (updates extraction changes)) before.journal after.journal := by
  change Runs ((updates extraction changes).forM fun change => Run.note .info ("Would update: " ++ change.path))
    before () after at noted
  generalize updates extraction changes = named at noted ⊢
  induction named generalizing before with
  | nil =>
    obtain ⟨-, rfl⟩ := Runs.pure_iff.mp noted
    exact Quiet.refl _ _
  | cons change rest ih =>
    obtain ⟨_, between, first, others⟩ := Runs.bind_iff.mp noted
    rw [Runs.note_iff.mp first] at others
    exact (names_note .planned before.journal change.path).trans (ih others)

theorem names_writes (written : Runs (changes.forM (Run.write extraction)) before () after) :
    Names .written (pathsOf changes) before.journal after.journal := by
  induction changes generalizing before with
  | nil =>
    obtain ⟨-, rfl⟩ := Runs.pure_iff.mp written
    exact Quiet.refl _ _
  | cons change rest ih =>
    obtain ⟨between, first, others⟩ := forM_cons.mp written
    obtain ⟨-, rfl⟩ := write_iff.mp first
    exact (names_note .written before.journal change.path).trans (ih others)

theorem fails_write {change : CatalogChange} (unable : before.files.canWrite change.path = false) :
    Fails (Run.write extraction change) before (.unwritable change.path) before := by
  unfold Run.write
  refine .behind (Runs.get_iff.mpr ⟨rfl, rfl⟩) ?_
  rw [if_neg (Bool.eq_false_iff.mp unable)]
  rfl

/-- Writing goes on up to the first catalog that cannot be written. -/
theorem writes_cases (extraction : Extraction) (changes : List CatalogChange) (before : Project) :
    (∃ after, Runs (changes.forM (Run.write extraction)) before () after) ∨
    ∃ done change rest after, changes = done ++ change :: rest ∧
      Runs (done.forM (Run.write extraction)) before () after ∧ after.files.canWrite change.path = false ∧
      Fails (changes.forM (Run.write extraction)) before (.unwritable change.path) after := by
  induction changes generalizing before with
  | nil => exact .inl ⟨before, rfl⟩
  | cons change rest ih =>
    cases able : before.files.canWrite change.path with
    | false => exact .inr ⟨[], change, rest, before, rfl, rfl, able, (fails_write able).bind⟩
    | true =>
      obtain ⟨between, first⟩ : ∃ between, Runs (Run.write extraction change) before () between :=
        ⟨_, write_iff.mpr ⟨able, rfl⟩⟩
      rcases ih between with ⟨after, written⟩ | ⟨done, last, others, after, rfl, written, unable, fails⟩
      · exact .inl ⟨after, forM_cons.mpr ⟨_, first, written⟩⟩
      · exact .inr ⟨change :: done, last, others, after, rfl, forM_cons.mpr ⟨_, first, written⟩, unable,
          .behind first fails⟩

theorem folders_of_written (written : Runs (changes.forM (Run.write extraction)) before () after) :
    after.files.folders = before.files.folders :=
  holds_after_writes (motive := fun files => files.folders = before.files.folders) written
    (fun _ _ _ _ known => known) rfl

end Storing

/-- A run from a project, dry or not. -/
def runFrom (before : Project) (settings : Settings) (sync : Sync) (isDry : Bool) : Except Failure Bool × Project :=
  (Run.update settings { isDry, sync }).run.run before

/-- Files at places that no message names as written are the same. -/
def Untouched (before after : Project) : Prop :=
  after.files.folders = before.files.folders ∧
    ∀ place, (∀ path ∈ Notice.written.since before after, place ≠ Files.placeOf path) →
      after.files.find? place = before.files.find? place

theorem untouched_of_writes {ready stored : Project} (same : ready.files = before.files)
    (written : Runs (changes.forM (Run.write extraction)) ready () stored) (files : after.files = stored.files)
    (named : Names .written (pathsOf changes) before.journal after.journal) : Untouched before after := by
  refine ⟨?_, fun place elsewhere => ?_⟩
  · rw [files, folders_of_written written, same]
  · rw [named.since] at elsewhere
    rw [files, kept_of_writes written ?_, same]
    intro change member
    exact elsewhere change.path (List.mem_map_of_mem member)

theorem untouched_of_files (same : after.files = before.files) : Untouched before after :=
  ⟨by rw [same], fun _ _ => by rw [same]⟩

section Runs

variable {sync : Sync} {failure : Failure}

theorem fails_update (extracted : Fails (Run.extract settings sync) before failure after) (isDry : Bool) :
    runFrom before settings sync isDry = (.error failure, after) := extracted.bind

/-- A dry run that knows the catalogs names those that change. -/
theorem dry_of_extract (extracted : Runs (Run.extract settings sync) before changes between) :
    ∃ after, runFrom before settings sync true =
        (.ok (changes.any (CatalogChange.isUpdate settings.extraction)), after) ∧
      Names .planned (pathsOf (updates settings.extraction changes)) before.journal after.journal ∧
      after.files = before.files := by
  obtain ⟨noted, noting, notedFiles⟩ := runs_noteUpdates settings.extraction changes between
  obtain ⟨after, concluded, lastFiles⟩ := runs_conclude settings changes noted
  obtain ⟨files, -⟩ := of_runs_extract extracted
  refine ⟨after, ?_, ?_, (lastFiles.trans notedFiles).trans files⟩
  · exact Runs.bind_iff.mpr ⟨changes, between, extracted, Runs.bind_iff.mpr ⟨(), noted, noting, concluded⟩⟩
  · have named := ((quiet_extract extracted .planned).trans (names_noteUpdates noting)).trans
      (quiet_conclude concluded .planned)
    rw [List.nil_append, List.append_nil] at named
    exact named

/-- A real run that knows the catalogs writes and names those that change, up to one that cannot be written. -/
theorem real_of_extract (extracted : Runs (Run.extract settings sync) before changes between) :
    (∃ after, runFrom before settings sync false =
        (.ok (changes.any (CatalogChange.isUpdate settings.extraction)), after) ∧
      Names .written (pathsOf (updates settings.extraction changes)) before.journal after.journal ∧
      Untouched before after) ∨
    ∃ done change rest after, updates settings.extraction changes = done ++ change :: rest ∧
      runFrom before settings sync false = (.error (.unwritable change.path), after) ∧
      after.files.canWrite change.path = false ∧ Names .written (pathsOf done) before.journal after.journal ∧
      Untouched before after := by
  obtain ⟨files, -⟩ := of_runs_extract extracted
  have quiet := quiet_extract extracted .written
  rcases writes_cases settings.extraction (updates settings.extraction changes) between with
    ⟨stored, written⟩ | ⟨done, change, rest, stopped, split, written, unable, fails⟩
  · obtain ⟨after, concluded, lastFiles⟩ := runs_conclude settings changes stored
    have named := (quiet.trans (names_writes written)).trans (quiet_conclude concluded .written)
    rw [List.nil_append, List.append_nil] at named
    refine .inl ⟨after, ?_, named, untouched_of_writes files written lastFiles named⟩
    exact Runs.bind_iff.mpr ⟨changes, between, extracted, Runs.bind_iff.mpr ⟨(), stored, written, concluded⟩⟩
  · have named := quiet.trans (names_writes written)
    rw [List.nil_append] at named
    refine .inr ⟨done, change, rest, stopped, split, ?_, unable, named, untouched_of_writes files written rfl named⟩
    exact Fails.behind extracted fails.bind

end Runs

section Examples

/-- Settings with two locales and a plugin that asks for one key. -/
def twoLocales : Settings where
  locales := ["en", "de"]
  extraction :=
    { output := .template "locales/\x7b\x7blng\x7d\x7d.json", primaryLanguage := some "en", order := .unsorted }
  plugins := [{ title := "one key", atEnd := some { steps := [.add { text := some "a" }] } }]

/-- A project with a directory where the second catalog belongs. -/
def blocked : Project where
  files := { folders := [["locales", "de.json"]] }

end Examples

end Phrasebook.Proofs.DryRun
