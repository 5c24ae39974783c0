import Phrasebook.Search.Sighting

/-! Calls of translation functions, such as `t('key', options)`. -/

namespace Phrasebook

open Catalog Syntax

/-- Whether some number of blanks in front of a text can be skipped so that the rest passes a test. -/
def afterBlanks (test : List Char → Bool) : List Char → Bool
  | [] => test []
  | c :: rest => test (c :: rest) || (Text.isBlank c && afterBlanks test rest)

def hasCountPlace (extraction : Extraction) (text : String) : Bool :=
  let closes (behind : List Char) : Bool := (Text.after? extraction.interpolationEnd.toList behind).isSome
  let counts (behind : List Char) : Bool :=
    match Text.after? "count".toList behind with
    | some behind => afterBlanks closes behind
    | none => false
  (Text.suffixes text.toList).any fun suffix =>
    match Text.after? extraction.interpolationStart.toList suffix with
    | some behind => afterBlanks counts behind
    | none => false

/-- The names on the way from a base expression to one of its members, none if a name on the way is computed. The
way of an expression that accesses no member is empty. -/
def memberPath? (expression : Node) : Except Failure (Option (List String)) := do
  let below (role : Role) (name : String) : Except Failure (Option (List String)) := do
    match held : expression.child? role with
    | none => pure (some [name])
    | some object =>
      match unwrapped : object.unwrap with
      | none => pure (some [name])
      | some inner =>
        have : inner.size < expression.size :=
          Nat.lt_of_le_of_lt (Node.size_le_of_unwrap unwrapped) (Node.size_lt_of_child? held)
        pure ((← memberPath? inner).map (· ++ [name]))
  match expression.kind with
  | .memberExpression =>
    match expression.child? .property with
    | some name => if name.kind = .propertyIdentifier then below .object name.text else pure none
    | none => pure none
  | .subscriptExpression =>
    let index ← match expression.child? .index with
      | some index => index.stringValue?
      | none => pure none
    match index with
    | some name => below .object name
    | none => pure none
  | _ => pure (some [])
termination_by expression.size

def returned? (function : Node) : Option Node :=
  match (function.child? .body).bind Node.unwrap with
  | none => none
  | some body =>
    if body.kind = .statementBlock then
      ((body.parts.find? fun statement => statement.kind = .returnStatement).bind fun statement =>
        statement.parts.head?).bind Node.unwrap
    else some body

/-- The key that a selector such as `$ => $.a.b` names. -/
def selectedKey? (extraction : Extraction) (function : Node) : Except Failure (Option String) := do
  match returned? function with
  | none => pure none
  | some body =>
    match ← memberPath? body with
    | none | some [] => pure none
    | some path => pure (some (Text.join (extraction.keySeparator.mark?.getD ".") path))

def skipsKey (extraction : Extraction) (skips : String → Bool) (key : String) : Bool :=
  skips key ||
    match (extraction.namespaceSeparator.mark?).map fun mark => (mark, Text.split mark key) with
    | some (mark, _ :: second :: rest) => skips (Text.join mark (second :: rest))
    | _ => false

namespace Search

/-- The keys that the first argument of a call names, and whether it is a selector. -/
def keysOfArgument (argument : Node) : Search (List String × Bool) := do
  match argument.unwrap with
  | none => pure ([], false)
  | some argument =>
    if argument.kind = .arrowFunction then
      pure ((← attempt (selectedKey? (← extraction) argument)).toList, true)
    else if argument.kind = .array then
      pure ((← argument.parts.mapM keyTexts).flatten, false)
    else pure (← keyTexts argument, false)

def defaultAndOptions (arguments : List Node) : Search (Option String × Option Node) := do
  let (text, options) ←
    match (arguments[1]?).bind Node.unwrap with
    | none => pure (none, none)
    | some second =>
      match second.kind with
      | .object => pure (none, some second)
      | .stringLiteral | .templateString => pure (← attempt second.stringValue?, none)
      | _ => pure (none, none)
  match (arguments[2]?).bind Node.unwrap with
  | some third => pure (text, if third.kind = .object then some third else options)
  | none => pure (text, options)

def namespaceOfOptions (options : Option Node) : Search (Option String) := do
  match options with
  | none => pure none
  | some options =>
    match (← attempt (options.property "ns")).bind Node.unwrap with
    | none => pure none
    | some value =>
      if value.kind = .array then
        match value.parts with
        | [] => pure none
        | first :: _ => attempt first.stringValue?
      else attempt value.stringValue?

/-- The namespace of a key and what is left of it: options come first, then a namespace in the key itself, then
the binding, then the default. A key of nothing but a namespace is reported and skipped. -/
def splitNamespace (key : String) (options : Option Node) (binding : Option Binding) :
    Search (Option (String × String)) := do
  let extraction ← extraction
  let filled (name : Option String) : Option String := name.filter (· ≠ "")
  let general := (filled (binding.bind Binding.defaultNamespace)).getD extraction.defaultNamespace
  match filled (← namespaceOfOptions options) with
  | some given => pure (some (given, key))
  | none =>
    match (extraction.namespaceSeparator.mark?).map fun mark => (mark, Text.split mark key) with
    | some (mark, first :: second :: rest) =>
      let inner := Text.join mark (second :: rest)
      if Text.isBlankText inner then
        warn ("Skipping key that became empty after namespace removal: '" ++ first ++ mark ++ "'")
        pure none
      else pure (some ((filled (some first)).getD general, inner))
    | _ => pure (some (general, key))

structure CallSetting where
  binding : Option Binding
  /-- The default text among the arguments. -/
  callDefault : Option String
  options : Option Node
  /-- Whether a key asks for a number in an order by its ending. -/
  ordinalByKey : Bool
  isSelector : Bool
  location : Location

def optionValue (options : Option Node) (name : String) : Search (Option Literal) := do
  match options with
  | none => pure none
  | some options => attempt (options.propertyLiteral? name)

/-- Adds the keys of one of the texts that a call names. The default texts of the call belong to the last one. -/
def reportCallKey (call : CallSetting) (optionDefault : Option String) (hasDefaultOptions : Bool) (isLast : Bool)
    (written : String) : Search Unit := do
  let extraction ← extraction
  let options := call.options
  let default := optionDefault <|> call.callDefault
  let explicitForVariants := hasDefaultOptions || default.any fun text => !hasCountPlace extraction text
  match ← splitNamespace written options call.binding with
  | none => pure ()
  | some (namespaceName, key) =>
    match ← withPrefix? call.binding key with
    | none => pure ()
    | some wholeKey =>
      let unstated :=
        match extraction.namespaceSeparator.mark? with
        | some mark => if Text.contains mark written then written else key
        | none => key
      let (contextNode, hasCount) ←
        match options with
        | none => pure (none, false)
        | some options =>
          pure (← attempt (options.property "context"), (← attempt (options.property "count")).isSome)
      let (contexts, moreContexts) ← contextsOf contextNode
      let plural : Option PluralRequest ←
        if (hasCount || call.ordinalByKey) && !extraction.disablePlurals then do
          let ordinal := (← optionValue options "ordinal") == some (.truth true) || call.ordinalByKey
          pure (some
            { ordinal
              forms := ← pluralForms options ordinal
              default := optionDefault
              callDefault := if isLast then call.callDefault else none
              explicitVariants := explicitForVariants })
        else pure none
      let isOpaque ←
        if call.isSelector then pure true
        else pure ((← optionValue options "returnObjects") == some (.truth true))
      let sighting : Sighting :=
        { namespaceName
          key := wholeKey
          defaultValue := if isLast then default.getD unstated else key
          explicit := default.isSome || hasDefaultOptions
          location := call.location
          contexts, moreContexts, plural, isOpaque }
      report sighting
      if sighting.isPlain then
        reportReferences wholeKey
        default.forM reportReferences

/-- Adds the keys of a call, if it calls a translation function. `skips` tells keys to leave out, `place` the
line and column of a call that is not in the source's own syntax tree. -/
def reportCall (call : Node) (skips : Option (String → Bool)) (place : Option (Nat × Nat)) : Search Unit := do
  let extraction ← extraction
  match (call.child? .function).bind Node.memberChain? with
  | none => pure ()
  | some callee =>
    let binding ← resolve callee
    if binding.isSome || matchesFunction extraction.functions callee then
      match call.callArguments with
      | [] => pure ()
      | first :: further =>
        let (named, isSelector) ← keysOfArgument first
        let ending := extraction.pluralSeparator ++ "ordinal"
        let ordinalByKey := named.any fun key => !Text.isBlankText key && Text.endsWith ending key
        let keys := named.filter fun key => !Text.isBlankText key
        let keys := (keys.map fun key => (Text.dropEnd? ending key).getD key).filter fun key => !Text.isBlankText key
        let keys := match skips with
          | some skips => keys.filter fun key => !skipsKey extraction skips key
          | none => keys
        if !keys.isEmpty then
          let (callDefault, options) ← defaultAndOptions (first :: further)
          let optionDefault : Option String :=
            match ← optionValue options "defaultValue" with
            | some (.text value) => some value
            | _ => none
          let hasDefaultOptions ← givesDefaults options
          let (line, column) := place.getD (call.start.line, call.start.column)
          let location ← attempt (Location.make (← file) line column)
          let setting : CallSetting :=
            { binding, callDefault, options, ordinalByKey, isSelector, location }
          keys.zipIdx.forM fun (key, index) =>
            reportCallKey setting optionDefault hasDefaultOptions (index + 1 == keys.length) key

end Search

end Phrasebook
