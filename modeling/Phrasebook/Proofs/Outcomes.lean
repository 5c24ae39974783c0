import Phrasebook.Project.Catalogs

/-! What the catalogs of a project become, whatever has been told before. A step that only tells things gives one
result for all journals, and this result is computed without any. -/

namespace Phrasebook.Proofs.Outcomes

open Catalog

variable {α β : Type}

/-- A step gives one result whatever its journal is. -/
def Gives (step : Telling α) (result : Except Failure α) : Prop :=
  ∀ journal, (step.run.run journal).1 = result

namespace Gives

theorem pure (value : α) : Gives (Pure.pure value) (.ok value) := fun _ => rfl

theorem tell (message : Message) : Gives (Telling.tell message) (.ok ()) := fun _ => rfl

theorem attempt (result : Except Failure α) : Gives (Telling.attempt result) result := fun _ => rfl

/-- What follows a step may be made of what the step shows of its result. -/
theorem bindSeen {γ : Type} {step : Telling β} {next : β → Telling γ} {result : Except Failure α} {seen : α → β}
    {after : α → Except Failure γ} (first : Gives step (result.map seen))
    (second : ∀ value, Gives (next (seen value)) (after value)) : Gives (step >>= next) (result >>= after) := by
  intro journal
  have given := first journal
  rw [ExceptT.run_bind, StateT.run_bind]
  rcases told : step.run.run journal with ⟨answer, later⟩
  rw [told] at given
  subst given
  cases result with
  | error failure => rfl
  | ok value => exact second value later

theorem bind {step : Telling α} {next : α → Telling β} {result : Except Failure α} {after : α → Except Failure β}
    (first : Gives step result) (second : ∀ value, Gives (next value) (after value)) :
    Gives (step >>= next) (result >>= after) := by
  have shown : Gives step (result.map id) := by cases result <;> exact first
  exact shown.bindSeen second

theorem mapSeen {γ : Type} {step : Telling β} {next : β → Telling γ} {result : Except Failure α} {seen : α → β}
    {after : α → γ} (first : Gives step (result.map seen))
    (second : ∀ value, Gives (next (seen value)) (.ok (after value))) : Gives (step >>= next) (result.map after) := by
  have both := first.bindSeen second
  cases result <;> exact both

theorem map {step : Telling α} {next : α → Telling β} {result : Except Failure α} {after : α → β}
    (first : Gives step result) (second : ∀ value, Gives (next value) (.ok (after value))) :
    Gives (step >>= next) (result.map after) := by
  have both := first.bind second
  cases result <;> exact both

theorem telling {step : Telling Unit} {next : Unit → Telling β} {result : Except Failure β}
    (first : Gives step (.ok ())) (second : Gives (next ()) result) : Gives (step >>= next) result :=
  (first.bind fun _ => second : Gives (step >>= next) (.ok () >>= fun _ => result))

theorem tellAny (message : Option Message) : Gives (message.forM Telling.tell) (.ok ()) := by
  cases message with
  | none => exact pure ()
  | some message => exact tell message

theorem forM {step : α → Telling Unit} (each : ∀ item, Gives (step item) (.ok ())) (items : List α) :
    Gives (items.forM step) (.ok ()) := by
  induction items with
  | nil => exact pure ()
  | cons item items ih => exact (each item).telling ih

theorem mapM {step : α → Telling β} {result : α → Except Failure β} (each : ∀ item, Gives (step item) (result item))
    (items : List α) : Gives (items.mapM step) (items.mapM result) := by
  induction items with
  | nil => exact pure []
  | cons item items ih =>
    rw [List.mapM_cons, List.mapM_cons]
    exact (each item).bind fun value => ih.bind fun values => pure (value :: values)

end Gives

def pathOf (update : Update) (locale : String) (namespaceName : Option String) : String :=
  (update.settings.extraction.output.find locale namespaceName).path

def readAt (update : Update) (files : Files) (locale : String) (namespaceName : Option String) :
    Except Failure (Option Entries × Option Message) :=
  readCatalog update.settings.extraction.format files (pathOf update locale namespaceName)

def sharedOutcome (update : Update) (files : Files) (locale : String) : Except Failure CatalogChange :=
  (readAt update files locale none).map fun (existing, _) =>
    { path := Files.normalized (pathOf update locale none)
      namespaceName := none
      locale, existing
      content := update.sharedContent locale (existing.getD []) }

def ownOutcome (update : Update) (files : Files) (locale namespaceName : String) (keys : List Key) :
    Except Failure CatalogChange :=
  (readAt update files locale (some namespaceName)).map fun (existing, _) =>
    { path := Files.normalized (pathOf update locale (some namespaceName))
      namespaceName := some namespaceName
      locale, existing
      content := (update.mergeOfKeys locale namespaceName keys).content (existing.getD []) }

def localeOutcome (update : Update) (files : Files) (locale : String) : Except Failure (List CatalogChange) :=
  if update.isShared then (sharedOutcome update files locale).map fun change => [change]
  else update.groups.mapM fun (name, keys) => ownOutcome update files locale name keys

/-- What the catalogs of a project become. -/
def outcome (update : Update) (files : Files) : Except Failure (List CatalogChange) :=
  (update.settings.locales.mapM (localeOutcome update files)).map List.flatten

theorem gives_load (update : Update) (files : Files) (locale : String) (namespaceName : Option String) :
    Gives (update.load files locale namespaceName)
      ((readAt update files locale namespaceName).map fun read => (pathOf update locale namespaceName, read.1)) := by
  refine (Gives.tellAny _).telling ?_
  refine (Gives.attempt _).map fun read => ?_
  exact (Gives.tellAny read.2).telling (.pure _)

theorem gives_sharedChange (update : Update) (files : Files) (locale : String) :
    Gives (update.sharedChange files locale) (sharedOutcome update files locale) := by
  refine (gives_load update files locale none).mapSeen fun read => ?_
  exact (Gives.forM (fun _ => Gives.forM Gives.tell _) update.groups).telling (.pure _)

theorem gives_ownChange (update : Update) (files : Files) (locale namespaceName : String) (keys : List Key) :
    Gives (update.ownChange files locale namespaceName keys) (ownOutcome update files locale namespaceName keys) := by
  refine (gives_load update files locale (some namespaceName)).mapSeen fun read => ?_
  exact (Gives.forM Gives.tell _).telling (.pure _)

theorem gives_localeChanges (update : Update) (files : Files) (locale : String) :
    Gives (update.localeChanges files locale) (localeOutcome update files locale) := by
  unfold Update.localeChanges localeOutcome
  split
  · exact (gives_sharedChange update files locale).map fun change => .pure [change]
  · refine Gives.mapM ?_ update.groups
    rintro ⟨name, keys⟩
    exact gives_ownChange update files locale name keys

/-- The catalogs become the same whatever has been told before. -/
theorem gives_changes (update : Update) (files : Files) : Gives (update.changes files) (outcome update files) :=
  (Gives.mapM (gives_localeChanges update files) update.settings.locales).map fun perLocale =>
    .pure perLocale.flatten

end Phrasebook.Proofs.Outcomes
