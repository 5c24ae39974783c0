import Phrasebook.Proofs.RunSteps
import Phrasebook.Proofs.SourceIsolation

/-! What a run announces: messages that name a catalog tell that it would be written, or that it was written. Nothing
else that a run tells names a catalog in this way. -/

namespace Phrasebook.Proofs.Announcements

open Catalog RunSteps SourceIsolation

variable {α β : Type}

/-- The messages that name catalogs: those a run would write, and those it has written. -/
inductive Notice where
  | planned | written

namespace Notice

def label : Notice → String
  | planned => "Would update: "
  | written => "Updated: "

def path? (notice : Notice) (message : Message) : Option String :=
  if message.level = .info then Text.dropStart? notice.label message.text else none

/-- The paths that messages name, in order. -/
def paths (notice : Notice) (messages : List Message) : List String := messages.filterMap notice.path?

/-- The paths that are named by what a project's run told from one time to a later one. -/
def since (notice : Notice) (before after : Project) : List String :=
  notice.paths (after.journal.messages.drop before.journal.messages.length)

end Notice

variable {notice : Notice} {before between after : Journal} {early late : List String}

/-- What is told between two journals names these paths. -/
def Names (notice : Notice) (paths : List String) (before after : Journal) : Prop :=
  ∃ told, after.messages = before.messages ++ told ∧ notice.paths told = paths

theorem Names.trans (first : Names notice early before between) (second : Names notice late between after) :
    Names notice (early ++ late) before after := by
  obtain ⟨told, tells, rfl⟩ := first
  obtain ⟨later, tellsLater, rfl⟩ := second
  refine ⟨told ++ later, ?_, List.filterMap_append⟩
  rw [tellsLater, tells, List.append_assoc]

theorem Names.since {start finish : Project} (names : Names notice early start.journal finish.journal) :
    notice.since start finish = early := by
  obtain ⟨told, tells, rfl⟩ := names
  rw [Notice.since, tells, List.drop_left]

theorem names_note (notice : Notice) (journal : Journal) (path : String) :
    Names notice [path] journal (journal.note .info (notice.label ++ path)) := by
  refine ⟨[⟨.info, notice.label ++ path⟩], rfl, ?_⟩
  rw [Notice.paths, List.filterMap_cons, Notice.path?, if_pos rfl, Segments.dropStart?_append]
  rfl

/-- What is told between two journals names no catalog. -/
def Quiet (before after : Journal) : Prop := ∀ notice, Names notice [] before after

namespace Quiet

theorem refl (journal : Journal) : Quiet journal journal := fun _ => ⟨[], (List.append_nil _).symm, rfl⟩

theorem trans (first : Quiet before between) (second : Quiet between after) : Quiet before after :=
  fun notice => (first notice).trans (second notice)

/-- Warnings and errors name no catalog. -/
theorem of_append {told : List Message} (tells : after.messages = before.messages ++ told)
    (plain : ∀ message ∈ told, message.level ≠ .info) : Quiet before after := by
  intro notice
  refine ⟨told, tells, List.filterMap_eq_nil_iff.mpr fun message member => ?_⟩
  rw [Notice.path?, if_neg (plain message member)]

theorem note {level : Level} (plain : level ≠ .info) (journal : Journal) (text : String) :
    Quiet journal (journal.note level text) := by
  apply of_append rfl
  intro message member
  rw [List.mem_singleton.mp member]
  exact plain

theorem record (journal : Journal) (text : String) : Quiet journal (journal.record text) :=
  of_append (List.append_nil _).symm (List.forall_mem_nil _)

/-- A message that starts with another letter than those that name catalogs names none. -/
theorem info (first : Char) {text : String} (starts : text.toList.head? = some first)
    (other : first ≠ 'W' ∧ first ≠ 'U') (journal : Journal) : Quiet journal (journal.note .info text) := by
  intro notice
  refine ⟨[⟨.info, text⟩], rfl, ?_⟩
  obtain ⟨rest, spelled⟩ := List.head?_eq_some_iff.mp starts
  have none : Text.dropStart? notice.label text = none := by
    rw [Text.dropStart?, spelled]
    cases notice with
    | planned => simp [Notice.label, Text.after?, other.1.symm]
    | written => simp [Notice.label, Text.after?, other.2.symm]
  rw [Notice.paths, List.filterMap_cons, Notice.path?, if_pos rfl, none]
  rfl

theorem foldl {item : Type} {step : Journal → item → Journal} (each : ∀ journal item, Quiet journal (step journal item))
    (items : List item) (journal : Journal) : Quiet journal (items.foldl step journal) := by
  induction items generalizing journal with
  | nil => exact refl journal
  | cons item items ih => exact (each journal item).trans (ih _)

end Quiet

section Plugins

theorem quiet_mark (plugin : Plugin) (hook : String) (does : MarkHook) (records : List String) (journal : Journal) :
    Quiet journal (plugin.mark hook does records journal) := by
  unfold Plugin.mark
  split
  · exact .note (by decide) journal _
  · exact .of_append (List.append_nil _).symm (List.forall_mem_nil _)

theorem quiet_setUpAll (plugins : List Plugin) (journal : Journal) :
    Quiet journal (Plugin.setUpAll plugins journal) := by
  refine .foldl (fun journal plugin => ?_) plugins journal
  split
  · exact quiet_mark plugin _ _ _ journal
  · exact .refl journal

theorem quiet_afterSyncAll (plugins : List Plugin) (catalogs : List (String × Bool)) (journal : Journal) :
    Quiet journal (Plugin.afterSyncAll plugins catalogs journal) := by
  refine .foldl (fun journal plugin => ?_) plugins journal
  split
  · exact quiet_mark plugin _ _ _ journal
  · exact .refl journal

theorem quiet_endAll (plugins : List Plugin) (defaultNamespace : String) (keys : KeyMap) (journal : Journal) :
    Quiet journal (Plugin.endAll plugins defaultNamespace keys journal).2 := by
  induction plugins generalizing keys journal with
  | nil => exact .refl journal
  | cons plugin plugins ih =>
    unfold Plugin.endAll at ih ⊢
    rw [List.foldl_cons]
    dsimp only
    cases plugin.atEnd with
    | none => exact ih keys journal
    | some does =>
      dsimp only
      cases does.failure with
      | some reason => exact (Quiet.note (by decide) journal _).trans (ih keys _)
      | none =>
        dsimp only
        have recorded := Quiet.record journal (plugin.signature ++ " on_end " ++ toString keys.length)
        rcases KeyStep.run defaultNamespace does.steps keys with ⟨later, failure⟩
        cases failure with
        | none => exact recorded.trans (ih later _)
        | some reason => exact recorded.trans ((Quiet.note (by decide) _ _).trans (ih later _))

end Plugins

section Searching

theorem quiet_searchOne (settings : Settings) (files : Files) (file : String) (findings : Findings) :
    Quiet findings.journal (searchOne settings files file findings).2.journal := by
  obtain ⟨effect, searched, -⟩ := exists_searched settings files file
  refine .of_append (congrArg Journal.messages (searched.journal findings)) fun message member => ?_
  rw [searched.warns _ message member]
  decide

theorem quiet_searchAll (settings : Settings) (files : Files) (sources : List String) (findings : Findings) :
    Quiet findings.journal (searchAll settings files sources findings).2.journal := by
  induction sources generalizing findings with
  | nil => exact .refl _
  | cons file rest ih =>
    have quiet := quiet_searchOne settings files file findings
    rw [searchAll_cons]
    rcases searched : searchOne settings files file findings with ⟨answer, later⟩
    rw [searched] at quiet
    cases answer with
    | ok value => exact quiet.trans (ih later)
    | error failure =>
      dsimp only
      split
      · exact quiet.trans ((Quiet.note (by decide) later.journal failure.message).trans (ih _))
      · exact quiet

theorem quiet_scanning (settings : Settings) (files : Files) (journal : Journal) :
    Quiet journal (scanning settings files journal).journal := by
  refine .info 'S' ?_ (by decide) journal
  simp

theorem quiet_findKeys (settings : Settings) (files : Files) (journal : Journal) :
    Quiet journal (findKeys settings files journal).2 := by
  have scanned := quiet_scanning settings files journal
  have searched := quiet_searchAll settings files (candidates settings files) (scanning settings files journal)
  rw [findKeys_eq]
  rcases ended : searchAll settings files (candidates settings files) (scanning settings files journal) with
    ⟨failure | failed, findings⟩
  all_goals rw [ended] at searched
  · exact scanned.trans searched
  · exact (scanned.trans searched).trans (quiet_endAll _ _ _ _)

end Searching

section Catalogs

/-- A step that names no catalog in what it tells. -/
def Whispers (step : Telling α) : Prop := ∀ journal, Quiet journal (step.run.run journal).2

namespace Whispers

theorem pure (value : α) : Whispers (Pure.pure value) := .refl

/-- What follows a result may use that it was given. -/
theorem attemptThen {result : Except Failure α} {next : α → Telling β}
    (two : ∀ value, result = .ok value → Whispers (next value)) : Whispers (Telling.attempt result >>= next) := by
  cases result with
  | error failure => exact .refl
  | ok value => exact two value rfl

theorem tell {message : Message} (plain : message.level ≠ .info) : Whispers (Telling.tell message) :=
  fun journal => .note plain journal message.text

theorem bind {step : Telling α} {next : α → Telling β} (one : Whispers step) (two : ∀ value, Whispers (next value)) :
    Whispers (step >>= next) := by
  intro journal
  have first := one journal
  rw [ExceptT.run_bind, StateT.run_bind]
  rcases told : step.run.run journal with ⟨answer, later⟩
  rw [told] at first
  cases answer with
  | error failure => exact first
  | ok value => exact first.trans (two value later)

theorem forM {step : α → Telling Unit} {items : List α} (each : ∀ item ∈ items, Whispers (step item)) :
    Whispers (items.forM step) := by
  induction items with
  | nil => exact pure ()
  | cons item items ih =>
    apply (each item List.mem_cons_self).bind
    intro _
    exact ih fun other member => each other (List.mem_cons_of_mem _ member)

theorem mapM {step : α → Telling β} (each : ∀ item, Whispers (step item)) (items : List α) :
    Whispers (items.mapM step) := by
  induction items with
  | nil => exact pure []
  | cons item items ih =>
    rw [List.mapM_cons]
    exact (each item).bind fun value => ih.bind fun values => pure (value :: values)

theorem tellAny {message : Option Message} (plain : ∀ told, message = some told → told.level ≠ .info) :
    Whispers (message.forM Telling.tell) := by
  cases message with
  | none => exact pure ()
  | some message => exact tell (plain message rfl)

end Whispers

theorem level_of_message? {request : DefaultRequest} {source : DefaultSource} {message : Message}
    (told : source.message? request = some message) : message.level = .warning := by
  unfold DefaultSource.message? at told
  split at told
  · split at told
    · cases told
    · cases told
      rfl
  · cases told

mutual

/-- What a merge tells of a tree is that values for its texts could not be made. -/
theorem level_of_mem_treeMessages (merge : Merge) (path : String) (existing : Option Value) (tree : Tree Leaf) :
    ∀ message ∈ merge.treeMessages path existing tree, message.level = .warning := by
  intro message member
  cases tree with
  | leaf leaf =>
    rw [Merge.treeMessages] at member
    split at member
    · cases member
    · exact level_of_message? (Option.mem_toList.mp member)
  | branch entries =>
    rw [Merge.treeMessages] at member
    split at member
    · cases member
    · exact level_of_mem_entryMessages merge path _ entries message member

theorem level_of_mem_entryMessages (merge : Merge) (path : String) (existing : Entries)
    (entries : List (String × Tree Leaf)) :
    ∀ message ∈ merge.entryMessages path existing entries, message.level = .warning := by
  intro message member
  match entries with
  | [] =>
    rw [Merge.entryMessages] at member
    cases member
  | (segment, tree) :: rest =>
    rw [Merge.entryMessages] at member
    rcases List.mem_append.mp member with here | behind
    · exact level_of_mem_treeMessages merge _ _ tree message here
    · exact level_of_mem_entryMessages merge path existing rest message behind

end

theorem level_of_find {output : OutputPath} {locale : String} {namespaceName : Option String} {message : Message}
    (told : (output.find locale namespaceName).message = some message) : message.level = .warning := by
  unfold OutputPath.find at told
  split at told
  · split at told <;> cases told
  · split at told
    · cases told
    · cases told
      rfl

theorem level_of_readCatalog {format : Format} {files : Files} {path : String} {existing : Option Entries}
    {message : Message} (read : readCatalog format files path = .ok (existing, some message)) :
    message.level = .warning := by
  unfold readCatalog at read
  dsimp only at read
  split at read
  · cases read
  · cases read
    rfl
  · split at read
    all_goals cases read
    all_goals rfl

theorem plain_of_warning {message : Message} (warning : message.level = .warning) : message.level ≠ .info := by
  rw [warning]
  decide

theorem whispers_load (update : Update) (files : Files) (locale : String) (namespaceName : Option String) :
    Whispers (update.load files locale namespaceName) := by
  refine (Whispers.tellAny fun told same => plain_of_warning (level_of_find same)).bind fun _ => ?_
  refine .attemptThen ?_
  rintro ⟨existing, message⟩ read
  refine (Whispers.tellAny fun told same => ?_).bind fun _ => .pure _
  obtain rfl : message = some told := same
  exact plain_of_warning (level_of_readCatalog read)

theorem whispers_messages (merge : Merge) (existing : Entries) :
    Whispers ((merge.messages existing).forM Telling.tell) :=
  .forM fun message member => .tell (plain_of_warning (level_of_mem_entryMessages merge _ _ _ message member))

/-- Finding out what the catalogs become names none of them. -/
theorem whispers_changes (update : Update) (files : Files) : Whispers (update.changes files) := by
  refine (Whispers.mapM (fun locale => ?_) update.settings.locales).bind fun _ => .pure _
  unfold Update.localeChanges
  split
  · refine Whispers.bind ?_ fun _ => .pure _
    refine (whispers_load update files locale none).bind fun read => ?_
    refine (Whispers.forM ?_).bind fun _ => .pure _
    rintro ⟨name, keys⟩ _
    exact whispers_messages _ _
  · refine Whispers.mapM ?_ update.groups
    rintro ⟨name, keys⟩
    refine (whispers_load update files locale (some name)).bind fun read => ?_
    exact (whispers_messages _ _).bind fun _ => .pure _

end Catalogs

section Runs

variable {settings : Settings} {start finish : Project}

theorem quiet_search {found : ProjectKeys} (searched : Runs (Run.search settings) start found finish) :
    Quiet start.journal finish.journal := by
  simp only [Run.search, Run.keys, Runs.bind_iff, Runs.attempt_iff, Runs.telling_iff] at searched
  obtain ⟨_, between, ⟨_, same⟩, _, ready, setUp, told, _⟩ := searched
  rw [same] at setUp
  have readyJournal : ready.journal = Plugin.setUpAll settings.plugins start.journal :=
    congrArg Project.journal (Runs.modify_iff.mp setUp)
  have found : finish.journal = (findKeys settings ready.files ready.journal).2 := (congrArg Prod.snd told).symm
  rw [found, readyJournal]
  exact (quiet_setUpAll settings.plugins start.journal).trans (quiet_findKeys _ _ _)

/-- A run that has found out what the catalogs become has named none of them. -/
theorem quiet_extract {sync : Sync} {changes : List CatalogChange}
    (extracted : Runs (Run.extract settings sync) start changes finish) : Quiet start.journal finish.journal := by
  unfold Run.extract at extracted
  obtain ⟨found, searched, search, rest⟩ := Runs.bind_iff.mp extracted
  obtain ⟨_, noted, noting, rest⟩ := Runs.bind_iff.mp rest
  obtain ⟨made, told, telling, rest⟩ := Runs.bind_iff.mp rest
  have counted : Quiet searched.journal noted.journal := by
    rw [Runs.note_iff.mp noting]
    refine .info 'F' ?_ (by decide) _
    simp
  have made : Quiet noted.journal told.journal := by
    have same : told.journal = _ := (congrArg Prod.snd (Runs.telling_iff.mp telling).1).symm
    rw [same]
    exact whispers_changes _ _ noted.journal
  split at rest
  · obtain ⟨-, rfl⟩ := Runs.pure_iff.mp rest
    exact ((quiet_search search).trans counted).trans made
  · obtain ⟨_, _, _, stopped⟩ := Runs.bind_iff.mp rest
    exact absurd stopped Runs.not_throw

theorem quiet_conclude {changes : List CatalogChange} {changed : Bool}
    (concluded : Runs (Run.conclude settings changes) start changed finish) :
    Quiet start.journal finish.journal := by
  unfold Run.conclude at concluded
  dsimp only at concluded
  obtain ⟨_, shown, showing, rest⟩ := Runs.bind_iff.mp concluded
  have shownQuiet : Quiet start.journal shown.journal := by
    rw [Runs.modify_iff.mp showing]
    exact quiet_afterSyncAll _ _ _
  split at rest
  · obtain ⟨_, noted, noting, rest⟩ := Runs.bind_iff.mp rest
    obtain ⟨-, rfl⟩ := Runs.pure_iff.mp rest
    rw [Runs.note_iff.mp noting]
    refine shownQuiet.trans (.info 'A' ?_ (by decide) _)
    simp
  · obtain ⟨-, rfl⟩ := Runs.pure_iff.mp rest
    exact shownQuiet

end Runs

end Phrasebook.Proofs.Announcements
