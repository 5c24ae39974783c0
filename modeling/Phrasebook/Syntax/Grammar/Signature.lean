import Phrasebook.Syntax.Grammar.Literal

/-! Names of properties, patterns that bind names, and the heads of functions: type parameters, parameters and
result types. -/

namespace Phrasebook.Syntax.Parse

/-- Words that start an operand and are never names there. -/
def operandWords : List String :=
  ["function", "class", "new", "this", "super", "true", "false", "null", "undefined", "typeof", "void", "delete",
   "await", "yield", "import"]

def privateName : Parse Node := do
  match (← peek).rest with
  | '#' :: rest =>
    match ← wordAt ⟨rest, .first⟩ with
    | some text => leaf .privatePropertyIdentifier (text.length + 1)
    | none => failure
  | _ => failure

def propertyName (rules : Rules) : Parse Node :=
  anyWord .propertyIdentifier <|> privateName <|> stringLiteral <|> numberLiteral <|>
  node .computedPropertyName do
    sign "["
    let name ← rules (.expression false false)
    sign "]"
    pure [name]

def initialValue (rules : Rules) (tail : Bool) : Parse Node := do
  sign "="
  pure ((← rules (.expression tail false)).as .value)

def restBinding (rules : Rules) : Parse Node := node .restPattern do
  sign "..."
  pure [← rules .binding]

def bindingWithDefault (rules : Rules) : Parse Node := do
  let start ← begin
  let target ← rules .binding
  if ← accept "=" then
    let value ← rules (.expression false false)
    finish .assignmentPattern start [target.as .left, value.as .right]
  else pure target

def propertyBinding (rules : Rules) : Parse Node := do
  let keyed : Parse Node := node .pairPattern do
    let key ← propertyName rules
    sign ":"
    let value ← bindingWithDefault rules
    pure [key.as .key, value.as .value]
  let short : Parse Node := do
    let start ← begin
    let name ← anyWord .shorthandPropertyIdentifierPattern
    if ← accept "=" then
      let value ← rules (.expression false false)
      finish .objectAssignmentPattern start [name.as .left, value.as .right]
    else pure name
  restBinding rules <|> keyed <|> short

def bindingRule (rules : Rules) : Parse Node := do
  match ← nextSign with
  | some "\x7b" => node .objectPattern do
    sign "\x7b"
    let properties ← commaHoles (propertyBinding rules)
    sign "\x7d"
    pure properties
  | some "[" => node .arrayPattern do
    sign "["
    let elements ← commaHoles (restBinding rules <|> bindingWithDefault rules)
    sign "]"
    pure elements
  | some _ => failure
  | none => anyWord .identifier

def typeParameter (rules : Rules) : Parse Node := node .typeParameter do
  let modifiers : Parse Unit := do
    for word in ["const", "in", "out"] do
      let _ ← optional do
        keyword word
        if (← nextWord).isNone then failure
  modifiers
  let name ← anyWord .typeIdentifier
  let bound ← optional (node .constraint do
    keyword "extends" <|> sign ":"
    pure [← rules .type])
  let fallback ← optional (node .defaultType do
    sign "="
    pure [← rules .type])
  pure ([name.as .name] ++ bound.toList ++ fallback.toList)

def typeParameters (rules : Rules) : Parse Node := node .typeParameters do
  sharp '<'
  let parameters ← commaList (typeParameter rules)
  if parameters.isEmpty then failure
  sharp '>'
  pure parameters

def typeArguments (rules : Rules) : Parse Node := node .typeArguments do
  sharp '<'
  let arguments ← commaList (rules .type)
  if arguments.isEmpty then failure
  sharp '>'
  pure arguments

def typeAscription (rules : Rules) : Parse Node := node .typeAscription do
  sign ":"
  pure [← rules .type]

def predicateSubject : Parse Node :=
  wordNode .thisType "this" <|> anyWord .identifier

def typePredicate (rules : Rules) : Parse Node := node .typePredicate do
  let subject ← predicateSubject
  keyword "is"
  pure [subject.as .name, ← rules .type]

def assertedType (rules : Rules) : Parse Node := node .asserts do
  keyword "asserts"
  pure [← typePredicate rules <|> predicateSubject]

def resultType (rules : Rules) : Parse Node :=
  (node .typePredicateAscription do
    sign ":"
    pure [← typePredicate rules]) <|>
  (node .assertsAscription do
    sign ":"
    pure [← assertedType rules]) <|>
  typeAscription rules

/-- Continues a chain of member accesses that starts at a given place. -/
def memberChain (start : Cursor) (kind nameKind : Kind) (target : Node) : Nat → Parse Node
  | 0 => pure target
  | steps + 1 => do
    let longer : Parse Node := do
      sign "."
      let name ← anyWord nameKind
      finish kind start [target.as .object, name.as .property]
    match ← optional longer with
    | some chain => memberChain start kind nameKind chain steps
    | none => pure target

def argumentList (rules : Rules) : Parse Node := node .arguments do
  sign "("
  let spread : Parse Node := node .spreadElement do
    sign "..."
    pure [← rules (.expression false false)]
  let items ← commaHoles (spread <|> rules (.expression false false))
  sign ")"
  pure items

/-- A decorator: a name, a member, a call of one, or any of them in parentheses. -/
def decorator (rules : Rules) : Parse Node := node .decorator do
  sign "@"
  let plain : Parse Node := do
    let start ← begin
    let first ← anyWord .identifier
    let target ← memberChain start .memberExpression .propertyIdentifier first (← get).limit
    let types ← optional (typeArguments rules)
    match ← optional (argumentList rules) with
    | some given => finish .callExpression start ([target.as .function] ++ types.toList ++ [given.as .arguments])
    | none => if types.isSome then failure else pure target
  let inParentheses : Parse Node := node .parenthesizedExpression do
    sign "("
    let inside ← plain
    sign ")"
    pure [inside]
  pure [← plain <|> inParentheses]

/-- A word, when more of the same item follows it. Words without a kind of their own count as signs. -/
def modifier (word : String) (kind : Option Kind) : Parse Node := do
  let found ← wordNode (kind.getD .operator) word
  match (← peek).rest with
  | c :: rest =>
    if ":=,;?!()<>]\x7d".toList.contains c then
      failure
    else if c = '.' && rest.head? != some '.' then failure
    else pure found
  | [] => failure

def modifiers (words : List (String × Option Kind)) : Parse (List Node) :=
  many (words.foldl (fun rule (word, kind) => rule <|> modifier word kind) failure)

def parameterModifiers : List (String × Option Kind) :=
  [("public", some .accessibilityModifier), ("private", some .accessibilityModifier),
   ("protected", some .accessibilityModifier), ("override", some .overrideModifier), ("readonly", none)]

def parameter (rules : Rules) : Parse Node := do
  let start ← begin
  let decorators ← many (decorator rules)
  let words ← modifiers parameterModifiers
  let target ← wordNode .thisExpression "this" <|> restBinding rules <|> do
    if let some word ← nextWord then
      if operandWords.contains word then failure
    rules .binding
  let isOptional ← accept "?"
  let type ← optional (typeAscription rules)
  let value ← optional (initialValue rules false)
  finish (if isOptional then .optionalParameter else .requiredParameter) start
    (decorators ++ words ++ [target] ++ type.toList ++ value.toList)

def parameters (rules : Rules) : Parse Node := node .formalParameters do
  sign "("
  let items ← commaList (parameter rules)
  sign ")"
  pure items

def signature (rules : Rules) (withResult : Bool) : Parse (List Node) := do
  let types ← optional (typeParameters rules)
  let items ← parameters rules
  let result ← if withResult then optional (resultType rules) else pure none
  pure (types.toList ++ [items.as .parameters] ++ result.toList)

end Phrasebook.Syntax.Parse
