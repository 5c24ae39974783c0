import Phrasebook.Settings.Basic
import Phrasebook.Settings.EnvironmentFile
import Phrasebook.Text.Digit

/-! Settings from the variables of an environment. -/

namespace Phrasebook

namespace Environment

def valueOr (environment : Environment) (name instead : String) : String :=
  (Table.find? name environment).getD instead

def listItems (text : String) : List String := ((Text.split "," text).map Text.trim).filter (· ≠ "")

def plainWord (text : String) : String := String.ofList ((Text.trimChars text.toList).map Char.toLower)

def isYes (text : String) : Bool := ["1", "true", "yes", "on"].contains (plainWord text)

def separatorOf (text : String) : Separator := if plainWord text = "false" then none else some text

/-- A unit of indentation: a number of spaces if the text is a number, else the text itself. -/
def indentationOf (text : String) : Indentation :=
  match Text.readInt? text with
  | some count => .spaces count
  | none => .text text

def extraction (environment : Environment) : Except Failure Extraction := do
  let value (name instead : String) : String := valueOr environment ("KEYSYNC_" ++ name) instead
  let list (name instead : String) : List String := listItems (value name instead)
  let listOr (name : String) (instead : List String) : List String :=
    match list name "" with
    | [] => instead
    | items => items
  let standard : Extraction := {}
  pure
    { standard with
      input := list "INPUT" "src/**/*.\x7bjs,jsx,ts,tsx\x7d"
      output := .template (value "OUTPUT" "locales/\x7b\x7blanguage\x7d\x7d/\x7b\x7bnamespace\x7d\x7d.json")
      ignore := list "IGNORE" ""
      defaultNamespace := value "DEFAULT_NS" "translation"
      keySeparator := separatorOf (value "KEY_SEPARATOR" ".")
      namespaceSeparator := separatorOf (value "NS_SEPARATOR" ":")
      functions := listOr "FUNCTIONS" standard.functions
      components := listOr "TRANS_COMPONENTS" standard.components
      preservePatterns := list "PRESERVE_PATTERNS" ""
      removeUnused := isYes (value "REMOVE_UNUSED_KEYS" "true")
      order := if isYes (value "SORT" "true") then .ascending else .unsorted
      indentation := indentationOf (value "INDENTATION" "2")
      format := ← Format.ofName (value "OUTPUT_FORMAT" "json")
      mergeNamespaces := isYes (value "MERGE_NAMESPACES" "false")
      primaryLanguage := (Table.find? "KEYSYNC_PRIMARY_LANGUAGE" environment).filter (· ≠ "") }

def settings (environment : Environment) : Except Failure Settings := do
  Settings.make (listItems (valueOr environment "KEYSYNC_LOCALES" "en")) (← environment.extraction) []
    (valueOr environment "LOG_LEVEL" "INFO")

end Environment

end Phrasebook
