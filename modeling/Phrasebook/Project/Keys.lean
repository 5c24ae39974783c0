import Phrasebook.Plugin.Run
import Phrasebook.Project.Sources
import Phrasebook.Search.Walk

/-! The keys that the sources of a project use. Sources are searched one behind the other in the order of their
paths; one that cannot be read or has an error in it does not keep the others from being searched. -/

namespace Phrasebook

/-- The findings after a source, as plugins change it, was searched. -/
def searchLoaded (settings : Settings) (file code : String) (findings : Findings) :
    Except Failure Unit × Findings :=
  let (code, journal) := Plugin.loadAll settings.plugins file code findings.journal
  searchSource settings file code { findings with journal }

def endSearch (settings : Settings) (findings : Findings) : Findings :=
  let (keys, journal) :=
    Plugin.endAll settings.plugins settings.extraction.defaultNamespace findings.keys findings.journal
  { findings with keys, journal }

structure ProjectKeys where
  keys : KeyMap
  files : List String
  failed : List String
deriving Inhabited

namespace Findings

def note (findings : Findings) (level : Level) (text : String) : Findings :=
  { findings with journal := findings.journal.note level text }

end Findings

/-- Whether a failure is one of the source itself, which leaves other sources to be searched. -/
def Failure.concernsSource : Failure → Bool
  | .unparsed _ | .unreadable _ | .unusable _ => true
  | _ => false

/-- Searches sources, and tells which of them failed. Only a failure that does not concern the source ends the
search. -/
def searchAll (settings : Settings) (files : Files) : List String → Findings →
    Except Failure (List String) × Findings
  | [], findings => (.ok [], findings)
  | file :: rest, findings =>
    let (result, findings) :=
      match files.read file with
      | .text code => searchLoaded settings file code findings
      | _ => (.error (.unreadable file), findings)
    match result with
    | .ok () => searchAll settings files rest findings
    | .error failure =>
      if failure.concernsSource then
        let (failed, findings) := searchAll settings files rest (findings.note .error failure.message)
        (failed.map (file :: ·), findings)
      else (.error failure, findings)

def findKeys (settings : Settings) (files : Files) (journal : Journal) : Except Failure ProjectKeys × Journal :=
  let sources := files.sources settings.extraction.input settings.extraction.ignore
  let journal := journal.note .info ("Scanning " ++ toString sources.length ++ " source files")
  let (failed, findings) := searchAll settings files sources { journal }
  match failed with
  | .error failure => (.error failure, findings.journal)
  | .ok failed =>
    let findings := endSearch settings findings
    (.ok ⟨findings.keys, sources, failed⟩, findings.journal)

end Phrasebook
