import Phrasebook.Syntax.Grammar.Type

/-! Functions, methods and classes. -/

namespace Phrasebook.Syntax.Parse

def classModifiers : List (String × Option Kind) :=
  [("public", some .accessibilityModifier), ("private", some .accessibilityModifier),
   ("protected", some .accessibilityModifier), ("override", some .overrideModifier), ("static", none),
   ("readonly", none), ("abstract", none), ("declare", none), ("accessor", none), ("async", none),
   ("get", none), ("set", none)]

def functionBody (rules : Rules) : Parse Node := do pure ((← rules .block).as .body)

def memberEnd (ending : Ending) : Parse Unit := sign "," <|> semicolon ending

def namedMember (rules : Rules) : Parse Node := do
  let start ← begin
  let decorators ← many (decorator rules)
  let words ← modifiers classModifiers
  let isAbstract := words.any fun word => word.text == "abstract"
  let _ ← accept "*"
  let name ← propertyName rules
  let _ ← optional (sign "?" <|> sign "!")
  let before := decorators ++ words ++ [name.as .name]
  match ← optional (signature rules true) with
  | some head =>
    match ← optional (functionBody rules) with
    | some body =>
      let method ← finish .methodDefinition start (before ++ head ++ [body])
      let _ ← optional (semicolon .bare)
      pure method
    | none =>
      let bare ← finish (if isAbstract then .abstractMethodSignature else .methodSignature) start (before ++ head)
      memberEnd .signature
      pure bare
  | none =>
    let type ← optional (typeAscription rules)
    let value ← optional (initialValue rules true)
    let field ← finish .fieldDefinition start (before ++ type.toList ++ value.toList)
    memberEnd (if value.isSome then .expression else .bare)
    pure field

/-- A member of a class; semicolons between members are no nodes. -/
def classMember (rules : Rules) : Parse (List Node) := do
  let initializer : Parse Node := node .classStaticBlock do
    keyword "static"
    pure [← functionBody rules]
  let index : Parse Node := do
    let _ ← modifiers [("static", none)]
    let found ← indexSignature rules
    memberEnd .bare
    pure found
  if ← accept ";" then pure []
  else pure [← initializer <|> index <|> namedMember rules]

def classBody (rules : Rules) : Parse Node := node .classBody do
  sign "\x7b"
  let members ← many (classMember rules)
  sign "\x7d"
  pure members.flatten

def classHeritage (rules : Rules) : Parse Node := node .classHeritage do
  let extended : Parse Node := node .extendsClause do
    keyword "extends"
    let single : Parse (List Node) := do
      let value ← rules (.operand false false 13)
      if value.kind = .instantiationExpression then
        pure (value.children.map fun child =>
          if child.kind = .typeArguments then child else child.as .value)
      else pure ([value.as .value] ++ (← optional (typeArguments rules)).toList)
    let first ← single
    let rest ← many do
      sign ","
      single
    pure (first ++ rest.flatten)
  let implemented : Parse Node := node .implementsClause do
    keyword "implements"
    commaSome (rules .type)
  match ← optional extended with
  | some clause => pure ([clause] ++ (← optional implemented).toList)
  | none => pure [← implemented]

/-- A class behind its decorators; only expressions may lack a name. -/
def classFrom (rules : Rules) (start : Cursor) (kind : Kind) (before : List Node) (named : Bool) : Parse Node := do
  if kind = .abstractClassDeclaration then keyword "abstract"
  keyword "class"
  let name ← optional do
    if let some word ← nextWord then
      if word == "extends" || word == "implements" then failure
    anyWord .typeIdentifier
  if named && name.isNone then failure
  let types ← optional (typeParameters rules)
  let heritage ← optional (classHeritage rules)
  let body ← classBody rules
  finish kind start (before ++ (name.map (·.as .name)).toList ++ types.toList ++ heritage.toList ++ [body.as .body])

def classRule (rules : Rules) (kind : Kind) (named : Bool) : Parse Node := do
  let start ← begin
  let decorators ← many (decorator rules)
  classFrom rules start kind decorators named

/-- A function with its body; only expressions may lack a name. -/
def functionRule (rules : Rules) (plain generator : Kind) (named : Bool) : Parse Node := do
  let start ← begin
  let _ ← acceptWord "async"
  keyword "function"
  let isGenerator ← accept "*"
  let name ← optional (anyWord .identifier)
  if named && name.isNone then failure
  let head ← signature rules true
  let body ← functionBody rules
  finish (if isGenerator then generator else plain) start ((name.map (·.as .name)).toList ++ head ++ [body])

def functionSignature (rules : Rules) : Parse Node := do
  let declared ← node .functionSignature do
    let _ ← acceptWord "async"
    keyword "function"
    let name ← anyWord .identifier
    pure ([name.as .name] ++ (← signature rules true))
  semicolon .signature
  pure declared

def objectModifiers : List (String × Option Kind) :=
  [("public", some .accessibilityModifier), ("private", some .accessibilityModifier),
   ("protected", some .accessibilityModifier), ("override", some .overrideModifier), ("static", none),
   ("readonly", none), ("async", none), ("get", none), ("set", none)]

def objectMethod (rules : Rules) : Parse Node := node .methodDefinition do
  let words ← modifiers objectModifiers
  let _ ← accept "*"
  let name ← propertyName rules
  let _ ← accept "?"
  let head ← signature rules true
  pure (words ++ [name.as .name] ++ head ++ [← functionBody rules])

/-- A member of an object. A name with a default value makes sense only where the object turns out to be a
pattern. -/
def objectMember (rules : Rules) : Parse Node := do
  let spread : Parse Node := node .spreadElement do
    sign "..."
    pure [← rules (.expression false false)]
  let keyed : Parse Node := node .pair do
    let key ← propertyName rules
    sign ":"
    pure [key.as .key, (← rules (.expression false false)).as .value]
  let short : Parse Node := do
    let start ← begin
    let name ← anyWord .shorthandPropertyIdentifier
    if ← accept "=" then
      let value ← rules (.expression false false)
      finish .objectAssignmentPattern start
        [({ name with kind := .shorthandPropertyIdentifierPattern } : Node).as .left, value.as .right]
    else pure name
  spread <|> keyed <|> objectMethod rules <|> short

def objectLiteral (rules : Rules) : Parse Node := node .object do
  sign "\x7b"
  let members ← commaHoles (objectMember rules)
  sign "\x7d"
  pure members

/-- An array: items between brackets, some of which may be missing. -/
def arrayLiteral (rules : Rules) : Parse Node := node .array do
  sign "["
  let spread : Parse Node := node .spreadElement do
    sign "..."
    pure [← rules (.expression false false)]
  let items ← commaHoles (spread <|> rules (.expression false false))
  sign "]"
  pure items

end Phrasebook.Syntax.Parse
