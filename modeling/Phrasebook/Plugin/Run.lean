import Phrasebook.Journal
import Phrasebook.Plugin.Basic
import Phrasebook.Text.Split

/-! Running the hooks of plugins around a search. A hook that fails is reported and counts as having done no
more. -/

namespace Phrasebook

open Catalog

namespace Plugin

def failureMessage (plugin : Plugin) (hook reason : String) : Message :=
  ⟨.warning, "Plugin '" ++ plugin.title ++ "' failed in " ++ hook ++ ": " ++ reason⟩

/-- The journal after a hook that leaves records, or fails before it does. -/
def mark (plugin : Plugin) (hook : String) (does : MarkHook) (records : List String) (journal : Journal) : Journal :=
  match does.failure with
  | some reason => { journal with messages := journal.messages ++ [plugin.failureMessage hook reason] }
  | none => { journal with records := journal.records ++ records.map fun record => plugin.signature ++ " " ++ record }

def setUpAll (plugins : List Plugin) (journal : Journal) : Journal :=
  plugins.foldl (fun journal plugin =>
    match plugin.setup with
    | some does => plugin.mark "setup" does ["setup"] journal
    | none => journal) journal

/-- The journal after all plugins have seen the catalogs, by their paths and whether they change. -/
def afterSyncAll (plugins : List Plugin) (catalogs : List (String × Bool)) (journal : Journal) : Journal :=
  let records := catalogs.map fun (path, updated) => "after_sync " ++ path ++ " " ++ toString updated
  plugins.foldl (fun journal plugin =>
    match plugin.afterSync with
    | some does => plugin.mark "after_sync" does records journal
    | none => journal) journal

/-- The text of a source after a plugin's hook has seen it. What the hook gives back counts if it is a text. -/
def loadWith (plugin : Plugin) (does : LoadHook) (file code : String) (journal : Journal) : String × Journal :=
  match does.failure with
  | some reason =>
    (code, { journal with messages := journal.messages ++ [plugin.failureMessage "on_load" reason] })
  | none =>
    let journal := journal.record (plugin.signature ++ " on_load " ++ file)
    match does.result with
    | some (.text text) => (text, journal)
    | some _ => (code, journal)
    | none =>
      let replaced :=
        match does.replacement with
        | some (mark, text) => Text.replace mark text code
        | none => code
      (replaced ++ does.addition, journal)

def loadAll (plugins : List Plugin) (file code : String) (journal : Journal) : String × Journal :=
  plugins.foldl (fun (code, journal) plugin =>
    match plugin.load with
    | some does => plugin.loadWith does file code journal
    | none => (code, journal)) (code, journal)

def endAll (plugins : List Plugin) (defaultNamespace : String) (keys : KeyMap) (journal : Journal) :
    KeyMap × Journal :=
  plugins.foldl (fun (keys, journal) plugin =>
    match plugin.atEnd with
    | none => (keys, journal)
    | some does =>
      match does.failure with
      | some reason =>
        (keys, { journal with messages := journal.messages ++ [plugin.failureMessage "on_end" reason] })
      | none =>
        let journal := journal.record (plugin.signature ++ " on_end " ++ toString keys.length)
        let (keys, failure) := KeyStep.run defaultNamespace does.steps keys
        match failure with
        | some reason =>
          (keys, { journal with messages := journal.messages ++ [plugin.failureMessage "on_end" reason] })
        | none => (keys, journal)) (keys, journal)

end Plugin

end Phrasebook
