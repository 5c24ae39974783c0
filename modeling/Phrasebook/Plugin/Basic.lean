import Phrasebook.Catalog.Value
import Phrasebook.Key.Basic

/-! Plugins, given by what their hooks do. A hook is a list of steps; when a step fails, the steps before it stay
done, the failure is reported, and the run goes on without the rest of the hook. -/

namespace Phrasebook

open Catalog

structure KeyRequest where
  /-- The text, when it is one. -/
  text : Option String
  /-- Names of namespaces; the first that is not empty counts. -/
  namespaces : List String := []
  defaultValue : Option String := none
  explicitDefault : Bool := false
  locations : List (Except Failure Location) := []

namespace KeyRequest

/-- The key that is asked for. A request for a blank text is no request. -/
def key? (request : KeyRequest) (defaultNamespace : String) : Except Failure (Option Key) := do
  match request.text with
  | none => pure none
  | some text =>
    if Text.isBlankText text then pure none
    else
      let locations ← request.locations.mapM id
      let namespaceName := (request.namespaces.find? (· ≠ "")).getD defaultNamespace
      pure (some
        { text, namespaceName, locations
          defaultValue := request.defaultValue
          explicitDefault := request.explicitDefault })

end KeyRequest

inductive KeyStep where
  | add (request : KeyRequest)
  | store (key : Except Failure Key)
  | delete (identity : String)
  | fail (message : String)

namespace KeyStep

/-- The keys after the steps of a hook, and the message of the step that failed. What was done before a failing
step stays done. -/
def run (defaultNamespace : String) : List KeyStep → KeyMap → KeyMap × Option String
  | [], keys => (keys, none)
  | step :: rest, keys =>
    match step with
    | .add request =>
      match request.key? defaultNamespace with
      | .error failure => (keys, some failure.message)
      | .ok none => run defaultNamespace rest keys
      | .ok (some key) => run defaultNamespace rest (keys.add key)
    | .store (.error failure) => (keys, some failure.message)
    | .store (.ok key) => run defaultNamespace rest (Table.put key.identity key keys)
    | .delete identity =>
      if Table.has identity keys then run defaultNamespace rest (Table.erase identity keys)
      else (keys, some ("'" ++ identity ++ "'"))
    | .fail message => (keys, some message)

end KeyStep

structure LoadHook where
  failure : Option String := none
  /-- What the hook gives back in place of a changed text. -/
  result : Option Value := none
  replacement : Option (String × String) := none
  addition : String := ""

structure VisitHook where
  kind : String
  failure : Option String := none
  /-- Whether the hook only promises a result, which is too late for this place. -/
  awaited : Bool := false
  recordsBinding : Bool := false
  /-- The texts of the nodes at which the steps are taken, all when there are none. -/
  texts : Option (List String) := none
  steps : List KeyStep := []

structure ExpressionHook where
  values : List (String × Value) := []
  failure : Option String := none
  awaited : Bool := false

structure EndHook where
  failure : Option String := none
  steps : List KeyStep := []

structure MarkHook where
  failure : Option String := none

/-- A plugin: under which name messages speak of it, what it signs its records with, and its hooks. -/
structure Plugin where
  title : String
  signature : String := ""
  setup : Option MarkHook := none
  load : Option LoadHook := none
  visit : Option VisitHook := none
  keys : Option ExpressionHook := none
  contexts : Option ExpressionHook := none
  atEnd : Option EndHook := none
  afterSync : Option MarkHook := none
deriving Inhabited

end Phrasebook
