import Phrasebook.Scope.Stack
import Phrasebook.Settings.Basic
import Phrasebook.Syntax.Literal

/-! What declarations do to scopes: calls of hooks and of functions with a fixed namespace bind names, aliases
hand bindings on, and other declarations hide what a name was bound to. -/

namespace Phrasebook

open Syntax

/-- Whether a text is a language tag: two or three letters, possibly a sign and more letters, digits and
hyphens. The four letters outside ASCII whose other case is an ASCII letter count too; a line end may follow. -/
def isLanguageTag (text : String) : Bool :=
  let letter (c : Char) : Bool := c.isAlpha || c = 'ı' || c = 'İ' || c = 'ſ' || c.toNat = 0x212A
  let cs := text.toList
  let cs := if cs.getLast? == some '\n' then cs.dropLast else cs
  let language := cs.takeWhile letter
  let behind := cs.drop language.length
  (language.length == 2 || language.length == 3) &&
    match behind with
    | [] => true
    | sign :: tail =>
      (sign = '-' || sign = '_') && !tail.isEmpty && tail.all fun c => letter c || c.isDigit || c = '-'

def namespacesOf (argument : Option Node) : Except Failure (Option Namespaces) := do
  match argument with
  | none => pure none
  | some node =>
    if node.kind = .array then
      let names := (← node.parts.mapM Node.stringValue?).filterMap fun name => name.filter (· ≠ "")
      pure (if names.isEmpty then none else some (.several names))
    else pure (((← node.stringValue?).filter (· ≠ "")).map .one)

/-- The text in front of keys that an argument gives: a text, the name of a plain constant, or an option. -/
def keyPrefixOf (texts : List (String × String)) (steps : Nat) (argument : Option Node) :
    Except Failure (Option String) := do
  match steps, argument with
  | 0, _ => pure none
  | _, none => pure none
  | steps + 1, some node =>
    if node.kind = .object then keyPrefixOf texts steps ((← node.property "keyPrefix").bind Node.unwrap)
    else if node.kind = .identifier || node.kind = .shorthandPropertyIdentifier then
      pure (Table.find? node.text texts)
    else node.stringValue?

def argumentAt (arguments : List Node) (position : Int) : Option Node :=
  if position < 0 then none else (arguments[position.toNat]?).bind Node.unwrap

/-- The binding that a call of a hook makes. A language may stand in front of the namespace where the hook is
the standard one. -/
def bindingOfHook (texts : List (String × String)) (call : Node) (hook : Hook) : Except Failure Binding := do
  let arguments := call.callArguments
  let plainText (node : Option Node) : Except Failure (Option String) := do
    match node with
    | some node => if node.kind = .stringLiteral then node.stringValue? else pure none
    | none => pure none
  let first ← plainText (argumentAt arguments 0)
  let second ← plainText (argumentAt arguments 1)
  let withLanguage : Option String :=
    match hook.name == "useTranslation", first, second with
    | true, some language, some name => if isLanguageTag language then some name else none
    | _, _, _ => none
  let prefixText (position : Int) : Except Failure (Option String) :=
    keyPrefixOf texts call.size (argumentAt arguments position)
  match withLanguage with
  | some name => pure { namespaces := some (.one name), keyPrefix := ← prefixText 2 }
  | none =>
    pure
      { namespaces := ← namespacesOf (argumentAt arguments hook.namespaceArgument)
        keyPrefix := ← prefixText hook.keyPrefixArgument }

/-- The binding that a call with language, namespace and text in front of keys makes. -/
def bindingOfFixed (texts : List (String × String)) (call : Node) : Except Failure Binding := do
  let arguments := call.callArguments
  pure
    { namespaces := ← namespacesOf (argumentAt arguments 1)
      keyPrefix := ← keyPrefixOf texts call.size (argumentAt arguments 2)
      aliasKind := .function }

/-- The names that the target of a declaration gives to the result of a hook: a name, the first element of an
array, or the properties of an object. -/
def declaredNames (target : Node) : List String :=
  match target.kind with
  | .identifier => [target.text]
  | .arrayPattern =>
    match target.parts with
    | first :: _ => if first.kind = .identifier then [first.text] else []
    | [] => []
  | .objectPattern =>
    target.parts.filterMap fun property =>
      match property.kind with
      | .shorthandPropertyIdentifierPattern => some property.text
      | .pairPattern => ((property.child? .value).filter fun value => value.kind = .identifier).map Node.text
      | .objectAssignmentPattern =>
        ((property.child? .left).filter fun left =>
          left.kind = .shorthandPropertyIdentifierPattern ∨ left.kind = .identifier).map Node.text
      | _ => none
  | _ => []

namespace Scopes

def declareCall? (extraction : Extraction) (scopes : Scopes) (target call : Node) :
    Except Failure (Option Scopes) := do
  match (call.child? .function).bind Node.unwrap with
  | none => pure none
  | some callee =>
    match callee.memberChain? with
    | none => pure none
    | some name =>
      if callee.kind = .identifier then
        match (← extraction.hooks).find? fun hook => hook.name = name with
        | some hook =>
          let binding ← bindingOfHook scopes.texts call hook
          pure (some ((declaredNames target).foldl (fun scopes name => scopes.set name (some binding)) scopes))
        | none =>
          match scopes.resolve name with
          | some source =>
            if target.kind = .identifier then
              let binding := source.mergedWith (← bindingOfFixed scopes.texts call)
              pure (some (scopes.set target.text (some binding)))
            else pure none
          | none => pure none
      else if callee.kind = .memberExpression && (Text.split "." name).getLast? == some "getFixedT" then
        if target.kind = .identifier then
          let binding ← bindingOfFixed scopes.texts call
          if binding.namespaces.isNone && binding.keyPrefix.isNone then pure none
          else pure (some (scopes.set target.text (some binding)))
        else pure none
      else pure none

def declareAlias? (extraction : Extraction) (scopes : Scopes) (target source : Node) : Option Scopes :=
  match source.memberChain? with
  | none => none
  | some name =>
    let bound := scopes.resolve name
    if bound.isNone && !matchesFunction extraction.functions name then none
    else
      let binding : Binding :=
        { namespaces := bound.bind Binding.namespaces
          keyPrefix := bound.bind Binding.keyPrefix
          aliasName := some name
          aliasKind := .function }
      some (scopes.set target.text (some binding))

def shadow (scopes : Scopes) (target : Node) : Scopes :=
  if target.kind = .identifier && (scopes.resolve target.text).isSome then scopes.set target.text none
  else scopes

/-- What a declarator does to the scopes. Its plain text is remembered even if the rest of it fails. -/
def declare (extraction : Extraction) (declarator : Node) : ExceptT Failure (StateM Scopes) Unit := do
  match declarator.child? .name, (declarator.child? .value).bind Node.unwrap with
  | some target, some value =>
    if target.kind = .identifier then
      if let some text ← liftExcept value.stringValue? then
        modify fun scopes => { scopes with texts := Table.put target.text text scopes.texts }
    let value :=
      if value.kind = .awaitExpression then ((value.parts.head?).bind Node.unwrap).getD value else value
    let scopes ← get
    let bound ←
      if value.kind = .callExpression then liftExcept (scopes.declareCall? extraction target value)
      else if (value.kind = .identifier || value.kind = .memberExpression) && target.kind = .identifier then
        pure (scopes.declareAlias? extraction target value)
      else pure none
    modify fun scopes => bound.getD (scopes.shadow target)
  | _, _ => pure ()
where
  liftExcept {α : Type} (result : Except Failure α) : ExceptT Failure (StateM Scopes) α :=
    ExceptT.mk (pure result)

end Scopes

end Phrasebook
