import Phrasebook.Project.Run
import Phrasebook.Proofs.SettledCatalogs

/-! The steps of a run that succeed, by what they are given and what they leave. Only storing touches the files; the other
steps tell things, whatever has been told before. -/

namespace Phrasebook.Proofs.RunSteps

open Catalog Outcomes WrittenFiles

variable {α β : Type}

/-- A step succeeds with a value, from one project to another. -/
def Runs (step : Run α) (before : Project) (value : α) (after : Project) : Prop :=
  step.run.run before = (.ok value, after)

namespace Runs

theorem bind_iff {step : Run α} {next : α → Run β} {before after : Project} {result : β} :
    Runs (step >>= next) before result after ↔
      ∃ value between, Runs step before value between ∧ Runs (next value) between result after := by
  unfold Runs
  rw [ExceptT.run_bind, StateT.run_bind]
  rcases told : step.run.run before with ⟨answer, between⟩
  cases answer with
  | error failure =>
    constructor
    · intro same
      cases same
    · rintro ⟨_, _, same, _⟩
      cases same
  | ok value =>
    constructor
    · exact fun later => ⟨value, between, rfl, later⟩
    · rintro ⟨_, _, same, later⟩
      cases same
      exact later

theorem attempt_iff {result : Except Failure α} {before after : Project} {value : α} :
    Runs (Run.attempt result) before value after ↔ result = .ok value ∧ after = before :=
  ⟨fun same => by cases same; exact ⟨rfl, rfl⟩, fun ⟨one, two⟩ => by rw [one, two]; rfl⟩

theorem pure_iff {found value : α} {before after : Project} :
    Runs (pure found) before value after ↔ value = found ∧ after = before :=
  ⟨fun same => by cases same; exact ⟨rfl, rfl⟩, fun ⟨one, two⟩ => by rw [one, two]; rfl⟩

theorem modify_iff {convert : Project → Project} {before after : Project} :
    Runs (modify convert) before () after ↔ after = convert before :=
  ⟨fun same => by cases same; rfl, fun same => by rw [same]; rfl⟩

theorem get_iff {before after value : Project} : Runs get before value after ↔ value = before ∧ after = before :=
  ⟨fun same => by cases same; exact ⟨rfl, rfl⟩, fun ⟨one, two⟩ => by rw [one, two]; rfl⟩

theorem not_throw {failure : Failure} {before after : Project} {value : α} :
    ¬ Runs (throw failure) before value after := by
  intro same
  cases same

theorem note_iff {level : Level} {text : String} {before after : Project} :
    Runs (Run.note level text) before () after ↔
      after = { before with journal := before.journal.note level text } := modify_iff

/-- A step that only tells things gives its result and leaves the files. -/
theorem telling_iff {step : Files → Telling α} {before after : Project} {value : α} :
    Runs (Run.telling step) before value after ↔
      (step before.files).run.run before.journal = (.ok value, after.journal) ∧ after.files = before.files := by
  have told : (Run.telling step).run.run before =
      (((step before.files).run.run before.journal).1,
        { before with journal := ((step before.files).run.run before.journal).2 }) := rfl
  rw [Runs, told]
  rcases (step before.files).run.run before.journal with ⟨answer, journal⟩
  obtain ⟨files, later⟩ := after
  constructor
  · intro same
    cases same
    exact ⟨rfl, rfl⟩
  · rintro ⟨same, rfl⟩
    cases same
    rfl

theorem telling {step : Files → Telling α} {before : Project} {value : α}
    (given : Gives (step before.files) (.ok value)) :
    ∃ after, Runs (Run.telling step) before value after ∧ after.files = before.files :=
  ⟨{ before with journal := ((step before.files).run.run before.journal).2 },
    telling_iff.mpr ⟨Prod.ext (given before.journal) rfl, rfl⟩, rfl⟩

theorem of_telling {step : Files → Telling α} {before after : Project} {value : α} {result : Except Failure α}
    (given : Gives (step before.files) result) (told : Runs (Run.telling step) before value after) :
    result = .ok value ∧ after.files = before.files := by
  obtain ⟨answer, files⟩ := telling_iff.mp told
  exact ⟨(given before.journal).symm.trans (congrArg Prod.fst answer), files⟩

end Runs

variable {settings : Settings} {before between after : Project}

theorem files_of_search {found : ProjectKeys} (searched : Runs (Run.search settings) before found after) :
    after.files = before.files := by
  simp only [Run.search, Run.keys, Runs.bind_iff, Runs.attempt_iff, Runs.telling_iff] at searched
  obtain ⟨_, _, ⟨_, rfl⟩, _, ready, setUp, _, same⟩ := searched
  rw [same, Runs.modify_iff.mp setUp]

theorem runs_search {found : ProjectKeys} (valid : settings.validate = .ok ())
    (ended : ∀ journal, (findKeys settings before.files journal).1 = .ok found) :
    ∃ after, Runs (Run.search settings) before found after := by
  simp only [Run.search, Run.keys, Runs.bind_iff, Runs.attempt_iff, Runs.telling_iff]
  exact ⟨⟨before.files, _⟩, (), before, ⟨valid, rfl⟩, (), ⟨before.files, _⟩, Runs.modify_iff.mpr rfl,
    Prod.ext (ended _) rfl, rfl⟩

/-- The keys that a run searches for are those of the files that it starts from. -/
theorem found_of_search {found : ProjectKeys} (searched : Runs (Run.search settings) before found after) :
    ∃ journal, (findKeys settings before.files journal).1 = .ok found := by
  simp only [Run.search, Run.keys, Runs.bind_iff, Runs.attempt_iff, Runs.telling_iff] at searched
  obtain ⟨_, _, ⟨_, rfl⟩, _, ready, setUp, ended, _⟩ := searched
  obtain rfl := Runs.modify_iff.mp setUp
  exact ⟨_, congrArg Prod.fst ended⟩

theorem runs_noteUpdates (extraction : Extraction) (changes : List CatalogChange) (before : Project) :
    ∃ after, Runs (Run.noteUpdates extraction changes) before () after ∧ after.files = before.files := by
  unfold Run.noteUpdates
  induction changes.filter (CatalogChange.isUpdate extraction) generalizing before with
  | nil => exact ⟨before, rfl, rfl⟩
  | cons change rest ih =>
    obtain ⟨after, later, files⟩ := ih { before with journal := before.journal.note .info ("Would update: " ++ change.path) }
    exact ⟨after, Runs.bind_iff.mpr ⟨(), _, Runs.note_iff.mpr rfl, later⟩, files⟩

theorem runs_conclude (settings : Settings) (changes : List CatalogChange) (before : Project) :
    ∃ after, Runs (Run.conclude settings changes) before
      (changes.any (CatalogChange.isUpdate settings.extraction)) after ∧ after.files = before.files := by
  unfold Run.conclude
  dsimp only
  cases changes.any (CatalogChange.isUpdate settings.extraction) with
  | true => exact ⟨_, Runs.bind_iff.mpr ⟨(), _, Runs.modify_iff.mpr rfl, Runs.pure_iff.mpr ⟨rfl, rfl⟩⟩, rfl⟩
  | false =>
    exact ⟨_, Runs.bind_iff.mpr ⟨(), _, Runs.modify_iff.mpr rfl,
      Runs.bind_iff.mpr ⟨(), _, Runs.note_iff.mpr rfl, Runs.pure_iff.mpr ⟨rfl, rfl⟩⟩⟩, rfl⟩

variable {sync : Sync} {changes : List CatalogChange} {found : ProjectKeys}

/-- The catalogs that keys ask for are made when every source could be searched. -/
theorem runs_extract (searched : Runs (Run.search settings) before found between)
    (complete : found.failed.isEmpty = true)
    (made : outcome (Update.ofKeys settings sync found.keys.toList) before.files = .ok changes) :
    ∃ after, Runs (Run.extract settings sync) before changes after ∧ after.files = before.files := by
  have files : between.files = before.files := files_of_search searched
  obtain ⟨noted, noting, same⟩ : ∃ noted, Runs (Run.note .info ("Found " ++ toString found.keys.length ++
      " keys in " ++ toString found.files.length ++ " files")) between () noted ∧ noted.files = before.files :=
    ⟨_, Runs.note_iff.mpr rfl, files⟩
  have given := gives_changes (Update.ofKeys settings sync found.keys.toList) noted.files
  rw [same, made, ← same] at given
  obtain ⟨after, told, files⟩ := Runs.telling given
  refine ⟨after, ?_, files.trans same⟩
  unfold Run.extract
  refine Runs.bind_iff.mpr ⟨found, between, searched, ?_⟩
  refine Runs.bind_iff.mpr ⟨(), noted, noting, ?_⟩
  refine Runs.bind_iff.mpr ⟨changes, after, told, ?_⟩
  rw [if_pos complete]
  exact Runs.pure_iff.mpr ⟨rfl, rfl⟩

theorem of_runs_extract (extracted : Runs (Run.extract settings sync) before changes after) :
    after.files = before.files ∧ ∃ found between, Runs (Run.search settings) before found between ∧
      found.failed.isEmpty = true ∧
      outcome (Update.ofKeys settings sync found.keys.toList) before.files = .ok changes := by
  unfold Run.extract at extracted
  obtain ⟨found, searched, search, rest⟩ := Runs.bind_iff.mp extracted
  obtain ⟨_, noted, noting, rest⟩ := Runs.bind_iff.mp rest
  obtain ⟨made, told, telling, rest⟩ := Runs.bind_iff.mp rest
  have searchedFiles : searched.files = before.files := files_of_search search
  have notedFiles : noted.files = before.files :=
    (congrArg Project.files (Runs.note_iff.mp noting)).trans searchedFiles
  obtain ⟨outcome, files⟩ := Runs.of_telling (gives_changes _ _) telling
  split at rest
  next complete =>
    obtain ⟨rfl, rfl⟩ := Runs.pure_iff.mp rest
    exact ⟨files.trans notedFiles, found, searched, search, complete, notedFiles ▸ outcome⟩
  next =>
    obtain ⟨_, _, _, stopped⟩ := Runs.bind_iff.mp rest
    exact absurd stopped Runs.not_throw

section Writing

variable {extraction : Extraction} {change : CatalogChange}

theorem write_iff : Runs (Run.write extraction change) before () after ↔
    before.files.canWrite change.path = true ∧
      after = ⟨before.files.write change.path (.text (catalogText extraction change.content)),
        before.journal.note .info ("Updated: " ++ change.path)⟩ := by
  unfold Run.write
  constructor
  · intro written
    obtain ⟨_, _, got, rest⟩ := Runs.bind_iff.mp written
    obtain ⟨rfl, rfl⟩ := Runs.get_iff.mp got
    split at rest
    next able =>
      obtain ⟨_, _, stored, noted⟩ := Runs.bind_iff.mp rest
      rw [Runs.note_iff.mp noted, Runs.modify_iff.mp stored]
      exact ⟨able, rfl⟩
    next => exact absurd rest Runs.not_throw
  · rintro ⟨able, rfl⟩
    refine Runs.bind_iff.mpr ⟨before, before, Runs.get_iff.mpr ⟨rfl, rfl⟩, ?_⟩
    rw [if_pos able]
    exact Runs.bind_iff.mpr ⟨(), _, Runs.modify_iff.mpr rfl, Runs.note_iff.mpr rfl⟩

theorem forM_cons {rest : List CatalogChange} :
    Runs ((change :: rest).forM (Run.write extraction)) before () after ↔
      ∃ between, Runs (Run.write extraction change) before () between ∧
        Runs (rest.forM (Run.write extraction)) between () after :=
  Runs.bind_iff.trans ⟨fun ⟨_, between, both⟩ => ⟨between, both⟩, fun ⟨between, both⟩ => ⟨(), between, both⟩⟩

theorem runs_writes {files : Files} (there : ∀ change ∈ changes, files.canWrite change.path = true ∧
      files.find? (Files.placeOf change.path) = some (.text (catalogText extraction change.content)))
    (start : before.files = files) :
    ∃ after, Runs (changes.forM (Run.write extraction)) before () after ∧ after.files = files := by
  induction changes generalizing before with
  | nil => exact ⟨before, rfl, start⟩
  | cons change rest ih =>
    subst start
    obtain ⟨able, known⟩ := there change List.mem_cons_self
    obtain ⟨between, first, same⟩ : ∃ between, Runs (Run.write extraction change) before () between ∧
        between.files = before.files := ⟨_, write_iff.mpr ⟨able, rfl⟩, write_eq_self known⟩
    obtain ⟨after, written, files⟩ := ih (fun other member => there other (List.mem_cons_of_mem _ member)) same
    exact ⟨after, forM_cons.mpr ⟨between, first, written⟩, files⟩

/-- What every write keeps true of the files is true after all of them. -/
theorem holds_after_writes {motive : Files → Prop}
    (written : Runs (changes.forM (Run.write extraction)) before () after)
    (step : ∀ change ∈ changes, ∀ files : Files, files.canWrite change.path = true → motive files →
      motive (files.write change.path (.text (catalogText extraction change.content))))
    (start : motive before.files) : motive after.files := by
  induction changes generalizing before with
  | nil =>
    obtain ⟨-, rfl⟩ := Runs.pure_iff.mp written
    exact start
  | cons change rest ih =>
    obtain ⟨between, first, others⟩ := forM_cons.mp written
    obtain ⟨able, rfl⟩ := write_iff.mp first
    apply ih others fun other member => step other (List.mem_cons_of_mem _ member)
    exact step change List.mem_cons_self before.files able start

theorem folders_of_writes (written : Runs (changes.forM (Run.write extraction)) before () after) {place : Place}
    (isFolder : before.files.isFolder place = true) : after.files.isFolder place = true := by
  apply holds_after_writes (motive := fun files => files.isFolder place = true) written ?_ isFolder
  intro change _ files _ known
  rw [isFolder_write, known, Bool.true_or]

theorem kept_of_writes (written : Runs (changes.forM (Run.write extraction)) before () after) {place : Place}
    (elsewhere : ∀ change ∈ changes, place ≠ Files.placeOf change.path) :
    after.files.find? place = before.files.find? place := by
  apply holds_after_writes (motive := fun files => files.find? place = before.files.find? place) written ?_ rfl
  intro change member files _ known
  exact (find?_write_other (elsewhere change member)).trans known

theorem canWrite_of_writes (written : Runs (changes.forM (Run.write extraction)) before () after) {path : String}
    (isFile : before.files.isFile (Files.placeOf path) = true) (able : before.files.canWrite path = true) :
    after.files.canWrite path = true := by
  have both : after.files.isFile (Files.placeOf path) = true ∧ after.files.canWrite path = true := by
    apply holds_after_writes (motive := fun files => files.isFile (Files.placeOf path) = true ∧
      files.canWrite path = true) written ?_ ⟨isFile, able⟩
    rintro change _ files there ⟨known, again⟩
    exact ⟨isFile_write known, canWrite_write known again there⟩
  exact both.2

/-- What is written is there afterwards and can be written again, where all that is written at one place is the same. -/
theorem made_of_writes (written : Runs (changes.forM (Run.write extraction)) before () after)
    (agree : ∀ change ∈ changes, ∀ other ∈ changes, Files.placeOf change.path = Files.placeOf other.path →
      change.content = other.content) : ∀ change ∈ changes,
    after.files.find? (Files.placeOf change.path) = some (.text (catalogText extraction change.content)) ∧
      after.files.canWrite change.path = true := by
  induction changes generalizing before with
  | nil => simp
  | cons change rest ih =>
    obtain ⟨between, first, others⟩ := forM_cons.mp written
    obtain ⟨able, rfl⟩ := write_iff.mp first
    have later := ih others fun one here other there =>
      agree one (List.mem_cons_of_mem _ here) other (List.mem_cons_of_mem _ there)
    refine List.forall_mem_cons.mpr ⟨?_, later⟩
    -- the last write to a place decides; with no other one the file stays as it is written here
    by_cases again : ∃ other ∈ rest, Files.placeOf change.path = Files.placeOf other.path
    · obtain ⟨other, member, place⟩ := again
      obtain ⟨there, ableAgain⟩ := later other member
      rw [place, agree change List.mem_cons_self other (List.mem_cons_of_mem _ member) place]
      refine ⟨there, ?_⟩
      rw [Files.canWrite, place]
      exact ableAgain
    · have written : (before.files.write change.path (.text (catalogText extraction change.content))).isFile
          (Files.placeOf change.path) = true := by
        rw [Files.isFile, find?_write_self]
        rfl
      refine ⟨?_, canWrite_of_writes others written (canWrite_write_self able)⟩
      rw [kept_of_writes others fun other member place => again ⟨other, member, place⟩]
      exact find?_write_self

end Writing

theorem Runs.unique {step : Run α} {first second : α} {left right : Project} (one : Runs step before first left)
    (two : Runs step before second right) : first = second ∧ left = right := by
  cases one.symm.trans two
  exact ⟨rfl, rfl⟩

/-- A run that is not dry has made the catalogs that its keys ask for, and has written those that change. -/
theorem of_runs_update {options : RunOptions} {changed : Bool} (stored : options.isDry = false)
    (updated : Runs (Run.update settings options) before changed after) : ∃ found searched changes,
      Runs (Run.search settings) before found searched ∧ found.failed.isEmpty = true ∧
      outcome (Update.ofKeys settings options.sync found.keys.toList) before.files = .ok changes ∧
      ∃ extracted written : Project, extracted.files = before.files ∧ after.files = written.files ∧
        Runs ((changes.filter (CatalogChange.isUpdate settings.extraction)).forM (Run.write settings.extraction))
          extracted () written := by
  unfold Run.update at updated
  obtain ⟨changes, extracted, extracting, rest⟩ := Runs.bind_iff.mp updated
  obtain ⟨_, written, storing, concluding⟩ := Runs.bind_iff.mp rest
  obtain ⟨files, found, searched, searching, complete, made⟩ := of_runs_extract extracting
  obtain ⟨last, concluded, lastFiles⟩ := runs_conclude settings changes written
  rw [Run.store, stored] at storing
  obtain ⟨-, rfl⟩ := concluding.unique concluded
  exact ⟨found, searched, changes, searching, complete, made, extracted, written, files, lastFiles, storing⟩

/-- A run whose catalogs that change are there already leaves the files. -/
theorem runs_update {options : RunOptions} {found : ProjectKeys} {changes : List CatalogChange}
    (searched : Runs (Run.search settings) before found between) (complete : found.failed.isEmpty = true)
    (made : outcome (Update.ofKeys settings options.sync found.keys.toList) before.files = .ok changes)
    (there : ∀ change ∈ changes.filter (CatalogChange.isUpdate settings.extraction),
      before.files.canWrite change.path = true ∧
      before.files.find? (Files.placeOf change.path) =
        some (.text (catalogText settings.extraction change.content))) :
    ∃ after, Runs (Run.update settings options) before (changes.any (CatalogChange.isUpdate settings.extraction)) after ∧
      after.files = before.files := by
  obtain ⟨extracted, extracting, files⟩ := runs_extract searched complete made
  obtain ⟨written, storing, writtenFiles⟩ : ∃ written, Runs (Run.store settings.extraction options.isDry changes)
      extracted () written ∧ written.files = before.files := by
    unfold Run.store
    cases options.isDry with
    | true =>
      obtain ⟨noted, noting, same⟩ := runs_noteUpdates settings.extraction changes extracted
      exact ⟨noted, noting, same.trans files⟩
    | false => exact runs_writes there files
  obtain ⟨after, concluding, last⟩ := runs_conclude settings changes written
  exact ⟨after, Runs.bind_iff.mpr ⟨changes, extracted, extracting,
    Runs.bind_iff.mpr ⟨(), written, storing, concluding⟩⟩, last.trans writtenFiles⟩

end Phrasebook.Proofs.RunSteps
