import Phrasebook.Constant
import Phrasebook.Journal
import Phrasebook.Scope.Declaration

/-! Searching a source for keys. A search carries the keys found so far, what the declarations around the present
place tell, and the journal; a failure ends it but leaves all of that as it is. -/

namespace Phrasebook

open Catalog Syntax

structure Findings where
  keys : KeyMap := []
  scopes : Scopes := {}
  constants : Constants := []
  journal : Journal := {}
deriving Inhabited

structure Task where
  settings : Settings
  file : String

abbrev Search := ReaderT Task (ExceptT Failure (StateM Findings))

namespace Search

def extraction : Search Extraction := do pure (← read).settings.extraction

def file : Search String := do pure (← read).file

def attempt {α : Type} (result : Except Failure α) : Search α := fun _ => ExceptT.mk (pure result)

def warn (text : String) : Search Unit :=
  modify fun findings => { findings with journal := findings.journal.note .warning text }

def record (text : String) : Search Unit :=
  modify fun findings => { findings with journal := findings.journal.record text }

def add (key : Key) : Search Unit := do
  let key ← attempt key.checked
  modify fun findings => { findings with keys := findings.keys.add key }

def resolve (name : String) : Search (Option Binding) := do pure ((← get).scopes.resolve name)

def texts (expression : Node) : Search (List String) := do
  attempt (possibleTexts (← get).constants false expression)

def warnOfHook (plugin : Plugin) (hook message : String) : Search Unit :=
  warn ("Plugin '" ++ plugin.title ++ "' failed in " ++ hook ++ ": " ++ message)

/-- Tells that a hook only promised a result. -/
def warnOfPromise (plugin : Plugin) (hook : String) : Search Unit :=
  warn ("Plugin '" ++ plugin.title ++ "' returned an awaitable from " ++ hook ++ ", which must be synchronous")

def textsFromHook (plugin : Plugin) (name : String) (hook : ExpressionHook) (expression : Node) :
    Search (List String) := do
  if hook.awaited then
    warnOfPromise plugin name
    pure []
  else
    match hook.failure with
    | some message =>
      warnOfHook plugin name message
      pure []
    | none =>
      match Table.find? expression.text hook.values with
      | some (.list items) => pure (items.filterMap Value.text?)
      | _ => pure []

/-- The texts that all plugins give for an expression, by one of their hooks. -/
def textsFromPlugins (name : String) (hook? : Plugin → Option ExpressionHook) (expression : Node) :
    Search (List String) := do
  let given ← (← read).settings.plugins.mapM fun plugin =>
    match hook? plugin with
    | some hook => textsFromHook plugin name hook expression
    | none => pure []
  pure given.flatten

/-- The keys an expression can stand for, those that plugins give first. -/
def keyTexts (expression : Node) : Search (List String) := do
  let given ← textsFromPlugins "extract_keys_from_expression" Plugin.keys expression
  pure (given ++ (← texts expression))

/-- The contexts an expression can stand for, those that plugins give first. -/
def contextTexts (expression : Node) : Search (List String) := do
  let given ← textsFromPlugins "extract_context_from_expression" Plugin.contexts expression
  pure (given ++ (← texts expression))

end Search

end Phrasebook
