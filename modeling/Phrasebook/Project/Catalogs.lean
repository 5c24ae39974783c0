import Phrasebook.Catalog.File
import Phrasebook.Project.Files
import Phrasebook.Project.Output
import Phrasebook.Tree.Merge

/-! The catalogs of a project and what they become. Each locale has a catalog for every namespace, or one for all
of them in which the namespaces are entries. -/

namespace Phrasebook

open Catalog

structure CatalogChange where
  path : String
  /-- The namespace, unless the catalog is for all of them. -/
  namespaceName : Option String
  locale : String
  /-- The content as it is, when there is a catalog that can be used. -/
  existing : Option Entries
  content : Entries
deriving Inhabited

/-- The text of a catalog with the settings' format and indentation. -/
def catalogText (extraction : Extraction) (content : Entries) : String :=
  extraction.format.write extraction.indentation (.object content)

def CatalogChange.isUpdate (extraction : Extraction) (change : CatalogChange) : Bool :=
  let old := match change.existing with
    | some entries => catalogText extraction entries
    | none => ""
  catalogText extraction change.content != old

/-- The content of a catalog file, when there is one that can be used, and a message when there is one that cannot.
Only a failure of a general nature ends the run. -/
def readCatalog (format : Format) (files : Files) (path : String) :
    Except Failure (Option Entries × Option Message) :=
  let ignoring (reason : String) : Option Entries × Option Message :=
    (none, some ⟨.warning, "Ignoring malformed catalog " ++ path ++ ": " ++ reason⟩)
  match files.read path with
  | .missing => .ok (none, none)
  | .unreadable => .ok (none, some ⟨.warning, "Could not read catalog " ++ path ++ ": no text"⟩)
  | .text text =>
    match format.read path text with
    | .ok (.object entries) => .ok (some entries, none)
    | .ok _ => .ok (none, some ⟨.warning, "Ignoring catalog " ++ path ++ ": top level is not an object"⟩)
    | .error .characterNumberTooLarge => .error .characterNumberTooLarge
    | .error failure => .ok (ignoring failure.message)

abbrev Telling := ExceptT Failure (StateM Journal)

namespace Telling

def tell (message : Message) : Telling Unit := modify fun journal => journal.note message.level message.text

def attempt {α : Type} (result : Except Failure α) : Telling α := ExceptT.mk (pure result)

end Telling

structure Update where
  settings : Settings
  sync : Sync
  groups : List (String × List Key)
deriving Inhabited

namespace Update

def ofKeys (settings : Settings) (sync : Sync) (keys : List Key) : Update :=
  ⟨settings, sync, groupByNamespace settings.extraction.ignoredNamespaces keys⟩

def merge (update : Update) (locale : String) (built : Built) : Merge where
  built
  locale
  isPrimary := locale == update.settings.primaryLanguage
  policy := Policy.ofExtraction update.settings.extraction update.sync

def mergeOfKeys (update : Update) (locale namespaceName : String) (keys : List Key) : Merge :=
  update.merge locale (Built.ofKeys update.settings keys namespaceName locale)

def entriesIn (existing : Entries) (namespaceName : String) : Entries :=
  ((Table.find? namespaceName existing).map Value.entries).getD []

/-- What becomes of a namespace in a catalog for all of them that no key is in. Ignored ones stay. -/
def idleNamespace? (update : Update) (locale namespaceName : String) (value : Value) : Option Value :=
  if update.settings.extraction.ignoredNamespaces.contains namespaceName then some value
  else
    match (update.merge locale { namespaceName, locale }).content value.entries with
    | [] => none
    | kept => some (.object kept)

def sharedContent (update : Update) (locale : String) (existing : Entries) : Entries :=
  let used := update.groups.map fun (name, keys) =>
    (name, Value.object ((update.mergeOfKeys locale name keys).content (entriesIn existing name)))
  let idle := existing.filterMap fun (name, value) =>
    if Table.has name used then none
    else (update.idleNamespace? locale name value).map fun kept => (name, kept)
  used ++ idle

def load (update : Update) (files : Files) (locale : String) (namespaceName : Option String) :
    Telling (String × Option Entries) := do
  let extraction := update.settings.extraction
  let found := extraction.output.find locale namespaceName
  found.message.forM Telling.tell
  let (existing, message) ← Telling.attempt (readCatalog extraction.format files found.path)
  message.forM Telling.tell
  pure (found.path, existing)

def sharedChange (update : Update) (files : Files) (locale : String) : Telling CatalogChange := do
  let (path, existing) ← update.load files locale none
  let entries := existing.getD []
  update.groups.forM fun (name, keys) =>
    ((update.mergeOfKeys locale name keys).messages (entriesIn entries name)).forM Telling.tell
  pure
    { path := Files.normalized path
      namespaceName := none
      locale, existing
      content := update.sharedContent locale entries }

def ownChange (update : Update) (files : Files) (locale namespaceName : String) (keys : List Key) :
    Telling CatalogChange := do
  let (path, existing) ← update.load files locale (some namespaceName)
  let merge := update.mergeOfKeys locale namespaceName keys
  (merge.messages (existing.getD [])).forM Telling.tell
  pure
    { path := Files.normalized path
      namespaceName := some namespaceName
      locale, existing
      content := merge.content (existing.getD []) }

def isShared (update : Update) : Bool :=
  update.settings.extraction.mergeNamespaces || !update.settings.extraction.output.separatesNamespaces

def localeChanges (update : Update) (files : Files) (locale : String) : Telling (List CatalogChange) := do
  if update.isShared then
    let change ← update.sharedChange files locale
    pure [change]
  else update.groups.mapM fun (name, keys) => update.ownChange files locale name keys

/-- What the catalogs of a project become. Nothing is written. -/
def changes (update : Update) (files : Files) : Telling (List CatalogChange) := do
  let perLocale ← update.settings.locales.mapM (update.localeChanges files)
  pure perLocale.flatten

end Update

end Phrasebook
