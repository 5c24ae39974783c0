import Phrasebook.Catalog.Value
import Phrasebook.Failure
import Phrasebook.Plugin.Basic
import Phrasebook.Text.Split
import Phrasebook.Tree.Comparator

/-! The settings of a project: which locales it has, how its sources use keys, and how its catalogs are
written. -/

namespace Phrasebook

open Catalog

/-- A function that binds a translation function to a variable. Argument positions count from zero; `-1` means
that there is no such argument. -/
structure Hook where
  name : String
  namespaceArgument : Int := 0
  keyPrefixArgument : Int := 1
deriving DecidableEq, Repr, Inhabited

namespace Hook

/-- A hook must have a name and possible positions. -/
def checked (hook : Hook) : Except Failure Hook :=
  if hook.name = "" then .error (.invalid "Hook name is required")
  else if hook.namespaceArgument < -1 || hook.keyPrefixArgument < -1 then
    .error (.invalid "Hook argument positions must be -1 or greater")
  else .ok hook

end Hook

abbrev Separator := Option String

/-- The text of a separator that separates anything; the empty text separates nothing. -/
def Separator.mark? (separator : Separator) : Option String := separator.filter (· ≠ "")

/-- A function that tells where the catalog of a locale and a namespace is kept, or of a locale and all
namespaces. It may fail with a message. -/
abbrev PathFunction := (locale : String) → (namespaceName : Option String) → Except String Value

/-- Where catalogs are written: at a path with places for the locale and the namespace, or where a function
says. -/
inductive OutputPath where
  | template (text : String)
  | function (does : PathFunction)
deriving Inhabited

structure DefaultRequest where
  key : String
  namespaceName : String
  locale : String
  /-- The text in the source, or else the key. -/
  value : String
deriving DecidableEq, Repr

abbrev DefaultFunction := DefaultRequest → Except String Value

/-- What a locale other than the primary one gets for a new key. -/
inductive DefaultSource where
  | nothing
  | text (value : String)
  | function (does : DefaultFunction)
deriving Inhabited

/-- A function given by what it does: it fails, it always gives the same value, or it fills a text in. -/
inductive Described where
  | fails (message : String)
  | gives (value : Value)
  | fills (text : String)
deriving Repr, Inhabited

namespace Described

def path : Described → PathFunction
  | fails message, _, _ => .error message
  | gives value, _, _ => .ok value
  | fills text, locale, namespaceName =>
    .ok (.text (Text.replace "<ns>" (namespaceName.getD "null") (Text.replace "<lng>" locale text)))

def defaultValue : Described → DefaultFunction
  | fails message, _ => .error message
  | gives value, _ => .ok value
  | fills text, request =>
    .ok (.text (Text.replace "<value>" request.value
      (Text.replace "<lng>" request.locale
        (Text.replace "<ns>" request.namespaceName (Text.replace "<key>" request.key text)))))

end Described

instance : Coe Described PathFunction := ⟨Described.path⟩

instance : Coe Described DefaultFunction := ⟨Described.defaultValue⟩

inductive Order where
  | unsorted | unset | ascending
  | by (comparator : Comparator)
deriving Inhabited

/-- The unit by which a catalog's lines are indented: a number of spaces, or a text. -/
inductive Indentation where
  | spaces (count : Int)
  | text (unit : String)
deriving DecidableEq, Repr, Inhabited

namespace Indentation

def unit : Indentation → String
  | .spaces count => String.ofList (List.replicate count.toNat ' ')
  | .text unit => unit

end Indentation

inductive Format where
  | json | js | jsModule | jsCommon | ts
deriving DecidableEq, Repr, Inhabited

namespace Format

def names : List (String × Format) :=
  [("json", .json), ("js", .js), ("js-esm", .jsModule), ("js-cjs", .jsCommon), ("ts", .ts)]

def ofName (name : String) : Except Failure Format :=
  match Table.find? name names with
  | some format => .ok format
  | none => .error (.invalid ("Output format must be one of: " ++ Text.join ", " (Table.names names)))

def name : Format → String
  | .json => "json"
  | .js => "js"
  | .jsModule => "js-esm"
  | .jsCommon => "js-cjs"
  | .ts => "ts"

end Format

structure Extraction where
  input : List String := ["src/**/*.\x7bjs,jsx,ts,tsx\x7d"]
  output : OutputPath := .template "locales/\x7b\x7blanguage\x7d\x7d/\x7b\x7bnamespace\x7d\x7d.json"
  ignore : List String := []
  defaultNamespace : String := "translation"
  keySeparator : Separator := some "."
  namespaceSeparator : Separator := some ":"
  contextSeparator : String := "_"
  pluralSeparator : String := "_"
  functions : List String := ["t", "*.t"]
  components : List String := ["Trans"]
  hookNames : List Hook := [⟨"useTranslation", 0, 1⟩, ⟨"getT", 0, 1⟩, ⟨"useT", 0, 1⟩]
  preservePatterns : List String := []
  removeUnused : Bool := true
  order : Order := .ascending
  indentation : Indentation := .spaces 2
  defaultSource : DefaultSource := .text ""
  primaryLanguage : Option String := none
  format : Format := .json
  mergeNamespaces : Bool := false
  ignoredNamespaces : List String := []
  preserveContextVariants : Bool := false
  generateBasePluralForms : Bool := true
  disablePlurals : Bool := false
  readComments : Bool := true
  keptElements : List String := ["br", "strong", "i", "p"]
  interpolationStart : String := "\x7b\x7b"
  interpolationEnd : String := "\x7d\x7d"
  nestingStart : String := "$t("
  nestingEnd : String := ")"
  nestingOptionsSeparator : String := ","
deriving Inhabited

namespace Extraction

/-- Settings whose values are allowed each by itself. -/
def checked (extraction : Extraction) : Except Failure Extraction :=
  let negative : Bool :=
    match extraction.indentation with
    | .spaces count => count < 0
    | .text _ => false
  if negative then .error (.invalid "Indentation cannot be negative")
  else if extraction.defaultNamespace = "" then .error (.invalid "Default namespace cannot be empty")
  else .ok extraction

def hooks (extraction : Extraction) : Except Failure (List Hook) := extraction.hookNames.mapM Hook.checked

end Extraction

def logLevels : List String := ["DEBUG", "INFO", "WARNING", "ERROR", "CRITICAL"]

/-- The capital letter of a letter, as far as the names of levels need it. -/
def capital (c : Char) : Char := if c = 'ı' then 'I' else c.toUpper

structure Settings where
  locales : List String
  extraction : Extraction
  plugins : List Plugin := []
  logLevel : String := "INFO"
deriving Inhabited

namespace Settings

/-- Settings of which each is allowed by itself. The first locale is the primary one unless another is named. -/
def make (locales : List String) (extraction : Extraction) (plugins : List Plugin) (logLevel : String) :
    Except Failure Settings := do
  let extraction ← extraction.checked
  let level := String.ofList (logLevel.toList.map capital)
  if !logLevels.contains level then
    .error (.invalid ("Log level must be one of: " ++ Text.join ", " logLevels))
  else
    let primary := extraction.primaryLanguage <|> locales.head?
    pure ⟨locales, { extraction with primaryLanguage := primary }, plugins, level⟩

/-- The primary locale; without one, a name that is no locale. -/
def primaryLanguage (settings : Settings) : String := settings.extraction.primaryLanguage.getD ""

/-- Checks that settings fit together before any file is read. -/
def validate (settings : Settings) : Except Failure Unit :=
  let extraction := settings.extraction
  let lacksLocale (text : String) : Bool :=
    !(Text.contains "\x7b\x7blanguage\x7d\x7d" text || Text.contains "\x7b\x7blng\x7d\x7d" text)
  let (outputMissing, placeMissing) :=
    match extraction.output with
    | .template text => (text == "", lacksLocale text)
    | .function _ => (false, false)
  let listed : Bool :=
    match extraction.primaryLanguage with
    | some primary => settings.locales.contains primary
    | none => false
  if extraction.input.isEmpty then .error (.unusable "extract.input must be specified and non-empty")
  else if outputMissing then .error (.unusable "extract.output must be specified")
  else if settings.locales.isEmpty then .error (.unusable "locales must be specified and non-empty")
  else if placeMissing then
    .error (.unusable "extract.output must contain \x7b\x7blanguage\x7d\x7d placeholder")
  else if !listed then
    .error (.unusable ("primary language '" ++ extraction.primaryLanguage.getD "None" ++
      "' is not one of the locales"))
  else .ok ()

end Settings

end Phrasebook
