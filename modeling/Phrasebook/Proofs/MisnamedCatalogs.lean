import Phrasebook.Proofs.ReadCatalogs
import Phrasebook.Proofs.ScriptCatalogs
import Phrasebook.Proofs.SettledCatalogs

/-! Catalogs whose path says that they are JSON though they are written as scripts. They alone cannot be read again: of
every other catalog that a run makes, the text is read at its own path. -/

namespace Phrasebook.Proofs.MisnamedCatalogs

open Catalog CatalogPairs Outcomes ReadCatalogs ScriptCatalogs SettledCatalogs

/-- A script with the name of a JSON file. -/
def IsMisnamed (format : Format) (path : String) : Prop := format ≠ .json ∧ Text.endsWith ".json" path = true

instance (format : Format) (path : String) : Decidable (IsMisnamed format path) :=
  inferInstanceAs (Decidable (_ ∧ _))

/-- A script is no JSON: neither of the words that it can start with starts a value. -/
theorem read_misnamed {format : Format} {path : String} (misnamed : IsMisnamed format path) (indentation : Indentation)
    (entries : Entries) : format.read path (format.write indentation (.object entries)) = .error .malformedJson := by
  obtain ⟨script, named⟩ := misnamed
  obtain ⟨c, more, starts, letter⟩ := starts_write script indentation entries
  have noBlank : Text.isBlankText (format.write indentation (.object entries)) = false := by
    rw [Text.isBlankText, starts]
    rcases letter with rfl | rfl <;> rfl
  have noValue : JsonText.read (format.write indentation (.object entries)) = .error .malformedJson := by
    rw [JsonText.read, starts]
    rcases letter with rfl | rfl <;> rfl
  rw [Format.read, named, Bool.or_true, if_pos rfl, noBlank, if_neg Bool.false_ne_true, noValue]

theorem rounded_existing? {update : Update} {files : Files} {pair : Pair} {entries : Entries}
    (found : existing? update files pair = some entries) : (Value.object entries).Rounded := by
  obtain ⟨_, _, reading⟩ := text_of_existing? found
  exact rounded_of_formatRead reading

section Changes

variable {settings : Settings} (sync : Sync) (keys : List Key) (files : Files) (pair : Pair)

end Changes

def welcome : Key := { text := "welcome", namespaceName := "translation" }

/-- Settings that write scripts. -/
def scriptExtraction (template : String) : Extraction := { output := .template template, format := .ts }

def scriptSettings (template : String) : Settings :=
  ⟨["en"], { scriptExtraction template with primaryLanguage := some "en" }, [], "INFO"⟩

def welcomeUpdate (template : String) : Update := .ofKeys (scriptSettings template) {} [welcome]

end Phrasebook.Proofs.MisnamedCatalogs
