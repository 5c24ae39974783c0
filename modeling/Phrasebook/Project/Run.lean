import Phrasebook.Project.Catalogs
import Phrasebook.Project.Keys

/-! A run over a project: from its sources to its catalogs. Catalogs are written only if every source could be
searched. -/

namespace Phrasebook

/-- A project: its files, and what runs over it have told. -/
structure Project where
  files : Files := {}
  journal : Journal := {}
deriving Inhabited

/-- A step of a run. What it did before it failed stays done. -/
abbrev Run := ExceptT Failure (StateM Project)

structure RunOptions where
  isDry : Bool := false
  sync : Sync := {}
deriving DecidableEq, Repr, Inhabited

namespace Run

def attempt {α : Type} (result : Except Failure α) : Run α := ExceptT.mk (pure result)

def note (level : Level) (text : String) : Run Unit :=
  modify fun project => { project with journal := project.journal.note level text }

/-- Takes a step that changes nothing but the journal. -/
def telling {α : Type} (step : Files → Telling α) : Run α := do
  let project ← get
  let (result, journal) := (step project.files).run.run project.journal
  modify fun project => { project with journal }
  attempt result

def keys (settings : Settings) : Run ProjectKeys :=
  telling fun files => ExceptT.mk fun journal => findKeys settings files journal

def noteUpdates (extraction : Extraction) (changes : List CatalogChange) : Run Unit :=
  (changes.filter (CatalogChange.isUpdate extraction)).forM fun change => note .info ("Would update: " ++ change.path)

/-- The keys of the project, looked for with settings that fit together and with plugins that are set up. -/
def search (settings : Settings) : Run ProjectKeys := do
  attempt settings.validate
  modify fun project => { project with journal := Plugin.setUpAll settings.plugins project.journal }
  keys settings

/-- What the catalogs of the project become. If a source fails, the catalogs that would change are told, and the
step fails. -/
def extract (settings : Settings) (sync : Sync) : Run (List CatalogChange) := do
  let found ← search settings
  note .info ("Found " ++ toString found.keys.length ++ " keys in " ++ toString found.files.length ++ " files")
  let changes ← telling (Update.ofKeys settings sync found.keys.toList).changes
  if found.failed.isEmpty then pure changes
  else
    noteUpdates settings.extraction changes
    throw (.unusable ("Extraction stopped, " ++ toString found.failed.length ++ " file(s) failed: " ++
      Text.join ", " found.failed))

def write (extraction : Extraction) (change : CatalogChange) : Run Unit := do
  let project ← get
  if project.files.canWrite change.path then
    let text := catalogText extraction change.content
    modify fun project => { project with files := project.files.write change.path (.text text) }
    note .info ("Updated: " ++ change.path)
  else throw (.unwritable change.path)

/-- Writes the catalogs that change. A dry run only tells which they are. -/
def store (extraction : Extraction) (isDry : Bool) (changes : List CatalogChange) : Run Unit :=
  if isDry then noteUpdates extraction changes
  else (changes.filter (CatalogChange.isUpdate extraction)).forM (write extraction)

/-- Shows the catalogs to the plugins, and tells whether any of them changes. -/
def conclude (settings : Settings) (changes : List CatalogChange) : Run Bool := do
  let extraction := settings.extraction
  let catalogs := changes.map fun change => (change.path, change.isUpdate extraction)
  modify fun project => { project with journal := Plugin.afterSyncAll settings.plugins catalogs project.journal }
  let changed := changes.any (CatalogChange.isUpdate extraction)
  if !changed then note .info "All catalogs are up to date"
  pure changed

/-- Brings every catalog of the project up to date, and tells whether any changed. -/
def update (settings : Settings) (options : RunOptions) : Run Bool := do
  let changes ← extract settings options.sync
  store settings.extraction options.isDry changes
  conclude settings changes

end Run

end Phrasebook
