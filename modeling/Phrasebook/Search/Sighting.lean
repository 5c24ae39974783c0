import Phrasebook.Key.Reference
import Phrasebook.Search.Basic

/-! From one sighting of a key to the keys that catalogs need: the key itself, its variants for contexts, and the
keys that its texts refer to. -/

namespace Phrasebook

open Catalog Syntax

structure Sighting where
  namespaceName : String
  key : String
  defaultValue : String
  /-- Whether the source gives the default. -/
  explicit : Bool
  location : Location
  /-- The contexts that are known. -/
  contexts : List String := []
  /-- Whether there may be other contexts, or none, besides the known ones. -/
  moreContexts : Bool := false
  plural : Option PluralRequest := none
  isOpaque : Bool := false

namespace Sighting

def isPlain (sighting : Sighting) : Bool :=
  sighting.plural.isNone && sighting.contexts.isEmpty && !sighting.moreContexts

def keyFor (sighting : Sighting) (text : String) : Key where
  text
  namespaceName := sighting.namespaceName
  defaultValue := some sighting.defaultValue
  explicitDefault := sighting.explicit
  plural := sighting.plural
  locations := [sighting.location]

def variant (sighting : Sighting) (separator context : String) : Key :=
  { sighting.keyFor (sighting.key ++ separator ++ context) with
    contextOf := if sighting.moreContexts then some sighting.key else none }

def base (sighting : Sighting) : Key :=
  { sighting.keyFor sighting.key with
    contextValues := if sighting.moreContexts then some sighting.contexts else none
    isOpaque := sighting.isPlain && sighting.isOpaque }

/-- Whether catalogs need the key of a sighting without a context. -/
def needsBase (sighting : Sighting) (basePluralForms : Bool) : Bool :=
  sighting.contexts.isEmpty || (sighting.moreContexts && (sighting.plural.isNone || basePluralForms))

/-- The keys that a sighting shows. -/
def keys (extraction : Extraction) (sighting : Sighting) : List Key :=
  sighting.contexts.map (sighting.variant extraction.contextSeparator) ++
    if sighting.needsBase extraction.generateBasePluralForms then [sighting.base] else []

end Sighting

namespace Reference

/-- The key that a reference names and its namespace, when it names one. -/
def target? (extraction : Extraction) (reference : Reference) : Option (String × String) :=
  let key := String.ofList reference.key
  if Text.isBlankText key then none
  else
    match (extraction.namespaceSeparator.mark?).map fun mark => (mark, Text.split mark key) with
    | some (mark, first :: second :: rest) =>
      let inner := Text.join mark (second :: rest)
      if Text.isBlankText inner then none else some (first, inner)
    | _ => some (extraction.defaultNamespace, key)

/-- The keys that a reference asks for. A count makes the key depend on it; a context alone asks for the key with
and without it. -/
def keys (extraction : Extraction) (reference : Reference) : List Key :=
  match reference.target? extraction with
  | none => []
  | some (namespaceName, key) =>
    let plain (text : String) : Key := { text, namespaceName, defaultValue := some text }
    let within (context : String) : String := key ++ extraction.contextSeparator ++ context
    let context := reference.context?
    if reference.hasCount then
      if extraction.disablePlurals then [plain key]
      else
        let counted := match context with
          | some context => if context = "" then key else within context
          | none => key
        [{ plain counted with plural := some {} }]
    else
      plain key :: match context with
        | some context => if context = "" then [] else [plain (within context)]
        | none => []

end Reference

namespace Search

def report (sighting : Sighting) : Search Unit := do
  (sighting.keys (← extraction)).forM add

def reportReferences (text : String) : Search Unit := do
  let extraction ← extraction
  let references :=
    Reference.all extraction.nestingStart extraction.nestingEnd extraction.nestingOptionsSeparator text
  references.forM fun reference => (reference.keys extraction).forM add

/-- The contexts an expression gives, and whether there may be others: literals leave no choice. -/
def contextsOf (expression : Option Node) : Search (List String × Bool) := do
  match expression.bind Node.unwrap with
  | none => pure ([], false)
  | some node =>
    let isStatic ←
      match node.kind with
      | .stringLiteral | .numberLiteral | .trueLiteral | .falseLiteral => pure true
      | .templateString => pure (← attempt node.stringValue?).isSome
      | _ => pure false
    if isStatic then
      match ← attempt node.literal? with
      | none => pure ([], false)
      | some value => pure ([value.render].filter (· ≠ ""), false)
    else pure ((← contextTexts node).filter (· ≠ ""), true)

/-- A key behind the text that a binding puts in front of keys. There is none when a segment is left blank. -/
def withPrefix? (binding : Option Binding) (key : String) : Search (Option String) := do
  match (binding.bind Binding.keyPrefix).filter (· ≠ "") with
  | none => pure (some key)
  | some start =>
    match (← extraction).keySeparator.mark? with
    | none => pure (some (start ++ key))
    | some mark =>
      let whole := if Text.endsWith mark start then start ++ key else start ++ mark ++ key
      if (Text.split mark whole).any Text.isBlankText then
        warn ("Skipping key with empty segments: '" ++ whole ++ "' (keyPrefix: '" ++ start ++ "', key: '" ++ key ++
          "')")
        pure none
      else pure (some whole)

def pluralForms (options : Option Node) (ordinal : Bool) : Search (List (String × String)) := do
  match options with
  | none => pure []
  | some options =>
    let separator := (← extraction).pluralSeparator
    let start := "defaultValue" ++ separator ++ (if ordinal then "ordinal" ++ separator else "")
    let named := (← attempt options.objectProperties).filterMap fun (name, _) => do
      let category ← Text.dropStart? start name
      if ordinal || !Text.startsWith ("ordinal" ++ separator) category then some (name, category) else none
    named.foldlM (fun forms (name, category) => do
      match ← attempt (options.propertyLiteral? name) with
      | some (.text value) => pure (Table.put category value forms)
      | _ => pure forms) []

def givesDefaults (options : Option Node) : Search Bool := do
  match options with
  | none => pure false
  | some options =>
    pure ((← attempt options.objectProperties).any fun (name, _) => Text.startsWith "defaultValue" name)

end Search

end Phrasebook
