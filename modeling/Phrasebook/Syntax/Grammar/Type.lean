import Phrasebook.Syntax.Grammar.Signature

/-! Types of typed scripts. -/

namespace Phrasebook.Syntax.Parse

def predefinedTypes : List String :=
  ["any", "number", "boolean", "string", "symbol", "void", "unknown", "never", "object"]

def literalType (rules : Rules) : Parse Node := do
  let signed : Parse Node := node .literalType do
    let number ← node .unaryExpression do
      sign "-" <|> sign "+"
      pure [← numberLiteral]
    pure [number]
  let plain : Parse Node := node .literalType do
    let value ← stringLiteral <|> numberLiteral <|> wordNode .trueLiteral "true" <|>
      wordNode .falseLiteral "false" <|> wordNode .nullLiteral "null" <|> wordNode .undefinedLiteral "undefined"
    pure [value]
  let pattern : Parse Node := template .templateLiteralType .templateType do pure [← rules .type]
  signed <|> plain <|> pattern

def namedType (rules : Rules) : Parse Node := do
  let start ← begin
  let first ← anyWord .typeIdentifier
  let modules (name : Node) : Node := { name with kind := .identifier }
  let rec qualified (steps : Nat) (module name : Node) : Parse Node := do
    match steps with
    | 0 => pure name
    | steps + 1 =>
      let longer : Parse (Node × Node) := do
        sign "."
        let next ← anyWord .typeIdentifier
        let nested ← finish .nestedTypeIdentifier start [module, next.as .name]
        let outer ← finish .nestedIdentifier start
          [module.as .object, ({ next with kind := .propertyIdentifier } : Node).as .property]
        pure (nested, outer)
      match ← optional longer with
      | some (nested, outer) => qualified steps outer nested
      | none => pure name
  let name ← qualified (← get).limit (modules first) first
  match ← optional (typeArguments rules) with
  | some given => finish .genericType start [name.as .name, given]
  | none => pure name

def tuplePart (rules : Rules) : Parse Node := do
  let named : Parse Node := do
    let start ← begin
    let name ← anyWord .identifier
    let isOptional ← accept "?"
    let type ← typeAscription rules
    finish (if isOptional then .optionalParameter else .requiredParameter) start [name.as .name, type]
  let namedRest : Parse Node := node .requiredParameter do
    let name ← restBinding rules
    pure [name.as .name, ← typeAscription rules]
  let rest : Parse Node := node .restType do
    sign "..."
    pure [← rules .type]
  let plain : Parse Node := do
    let start ← begin
    let type ← rules .type
    if ← accept "?" then finish .optionalType start [type] else pure type
  named <|> namedRest <|> rest <|> plain

/-- What a query `typeof` asks about: a name, a member or a call of one. -/
def queriedValue (rules : Rules) : Parse Node := do
  let start ← begin
  let first ← wordNode .importWord "import" <|> wordNode .thisExpression "this" <|> anyWord .identifier
  let rec longer (steps : Nat) (target : Node) : Parse Node := do
    match steps with
    | 0 => pure target
    | steps + 1 =>
      let access : Parse Node := do
        sign "."
        let name ← privateName <|> anyWord .propertyIdentifier
        finish .memberExpression start [target.as .object, name.as .property]
      let index : Parse Node := do
        if ← onNextLine then failure
        sign "["
        let key ← stringLiteral <|> numberLiteral
        sign "]"
        finish .subscriptExpression start [target.as .object, key.as .index]
      let call : Parse Node := do
        let given ← argumentList rules
        finish .callExpression start [target.as .function, given.as .arguments]
      match ← optional (access <|> index <|> call) with
      | some next => longer steps next
      | none => pure target
  let target ← longer (← get).limit first
  match ← optional (typeArguments rules) with
  | some given => finish .instantiationExpression start [target, given]
  | none => pure target

def indexClause (rules : Rules) : Parse (List Node) := do
  let plain : Parse (List Node) := do
    let name ← anyWord .identifier
    sign ":"
    pure [name.as .name, ← rules .type]
  let mapped : Parse (List Node) := do
    let clause ← node .mappedTypeClause do
      let name ← anyWord .typeIdentifier
      keyword "in"
      let type ← rules .type
      if ← acceptWord "as" then pure [name.as .name, type, ← rules .type] else pure [name.as .name, type]
    pure [clause]
  plain <|> mapped

def indexSignature (rules : Rules) : Parse Node := node .indexSignature do
  let _ ← optional do
    let _ ← optional (sign "-" <|> sign "+")
    keyword "readonly"
    if !(← sees "[") then failure
  sign "["
  let clause ← indexClause rules
  sign "]"
  let removing : Parse Node := node .omittingTypeAscription do
    sign "-"
    sign "?"
    sign ":"
    pure [← rules .type]
  let adding : Parse Node := node .addingTypeAscription do
    sign "+"
    sign "?"
    sign ":"
    pure [← rules .type]
  let opting : Parse Node := node .optingTypeAscription do
    sign "?"
    sign ":"
    pure [← rules .type]
  pure (clause ++ [← removing <|> adding <|> opting <|> typeAscription rules])

def memberModifiers : List (String × Option Kind) :=
  [("public", some .accessibilityModifier), ("private", some .accessibilityModifier),
   ("protected", some .accessibilityModifier), ("override", some .overrideModifier), ("static", none),
   ("readonly", none), ("async", none), ("get", none), ("set", none)]

def typeMember (rules : Rules) : Parse Node := do
  let construct : Parse Node := node .constructSignature do
    let _ ← acceptWord "abstract"
    keyword "new"
    signature rules true
  let call : Parse Node := node .callSignature (signature rules true)
  let named : Parse Node := do
    let start ← begin
    let words ← modifiers memberModifiers
    let _ ← accept "*"
    let name ← propertyName rules
    let _ ← accept "?"
    match ← optional (signature rules true) with
    | some head => finish .methodSignature start (words ++ [name.as .name] ++ head)
    | none =>
      let type ← optional (typeAscription rules)
      finish .propertySignature start (words ++ [name.as .name] ++ type.toList)
  construct <|> call <|> indexSignature rules <|> named

def objectTypeMembers (rules : Rules) : Nat → Parse (List Node)
  | 0 => pure []
  | steps + 1 => do
    match ← optional (typeMember rules) with
    | none => pure []
    | some member =>
      if ← accept "," then pure (member :: (← objectTypeMembers rules steps))
      else
        match ← optional (semicolon .bare) with
        | some _ => pure (member :: (← objectTypeMembers rules steps))
        | none => pure [member]

def objectType (rules : Rules) (kind : Kind) : Parse Node := node kind do
  sign "\x7b"
  let exact ← accept "|"
  let _ ← optional (sign "," <|> sign ";")
  let members ← objectTypeMembers rules (← get).limit
  if exact then sharp '|'
  sign "\x7d"
  pure members

def primaryType (rules : Rules) : Parse Node := do
  match ← nextSign with
  | some "(" => node .parenthesizedType do
    sign "("
    let inside ← rules .type
    sign ")"
    pure [inside]
  | some "\x7b" => objectType rules .objectType
  | some "[" => node .tupleType do
    sign "["
    let items ← commaList (tuplePart rules)
    sign "]"
    pure items
  | some "*" => signNode .existentialType "*"
  | some _ => literalType rules
  | none =>
    match ← nextWord with
    | none => literalType rules
    | some word =>
      if ["true", "false", "null", "undefined"].contains word then literalType rules
      else if word == "this" then wordNode .thisType "this"
      else if word == "typeof" then
        node .typeQuery do
          keyword "typeof"
          pure [← queriedValue rules]
      else if word == "import" then queriedValue rules
      else if predefinedTypes.contains word then
        wordNode .predefinedType word
      else if word == "unique" then
        (node .predefinedType do
          keyword "unique"
          keyword "symbol"
          pure []) <|> namedType rules
      else if word == "const" then leaf .operator 5
      else namedType rules

/-- Continues a type by element brackets on the same line. -/
def indexedType (rules : Rules) (start : Cursor) (type : Node) : Nat → Parse Node
  | 0 => pure type
  | steps + 1 => do
    let brackets : Parse Node := do
      if ← onNextLine then failure
      sign "["
      if ← accept "]" then finish .arrayType start [type]
      else
        let index ← rules .type
        sign "]"
        finish .lookupType start [type, index]
    match ← optional brackets with
    | some longer => indexedType rules start longer steps
    | none => pure type

def unaryType (rules : Rules) : Parse Node := do
  let start ← begin
  let functionType : Parse Node := node .functionType do
    let types ← optional (typeParameters rules)
    let items ← parameters rules
    sign "=>"
    let result ← typePredicate rules <|> assertedType rules <|> rules .type
    pure (types.toList ++ [items.as .parameters, result])
  let constructorType : Parse Node := node .constructorType do
    let _ ← acceptWord "abstract"
    keyword "new"
    let types ← optional (typeParameters rules)
    let items ← parameters rules
    sign "=>"
    pure (types.toList ++ [items.as .parameters, ← rules .type])
  let plain : Parse Node := do indexedType rules start (← primaryType rules) (← get).limit
  let keyed : Parse Node := node .indexTypeQuery do
    keyword "keyof"
    let inner ← begin
    pure [← indexedType rules inner (← primaryType rules) (← get).limit]
  let fixed : Parse Node := node .readonlyType do
    keyword "readonly"
    pure [← rules .type]
  let inferred : Parse Node := node .inferType do
    keyword "infer"
    let name ← anyWord .typeIdentifier
    if ← acceptWord "extends" then pure [name, ← rules .type] else pure [name]
  let maybe : Parse Node := node .flowMaybeType do
    sign "?"
    pure [← primaryType rules]
  match ← nextWord with
  | some "keyof" => keyed <|> plain
  | some "readonly" => fixed <|> plain
  | some "infer" => inferred <|> plain
  | some "new" => constructorType
  | some "abstract" => constructorType <|> plain
  | some _ => plain
  | none =>
    match ← nextSign with
    | some "?" => maybe
    | some "(" => functionType <|> plain
    | some _ => if (← peek).rest.head? == some '<' then functionType else plain
    | none => plain

/-- Types joined by a sign, grouped from the left; the sign may also stand in front. -/
def joinedTypes (kind : Kind) (joiner : Char) (part : Parse Node) : Parse Node := do
  let start ← begin
  let leading ← optional (sharp joiner)
  let first ← part
  let first ← if leading.isSome then finish kind start [first] else pure first
  let rec longer (steps : Nat) (type : Node) : Parse Node := do
    match steps with
    | 0 => pure type
    | steps + 1 =>
      let next : Parse Node := do
        sign (String.singleton joiner)
        let right ← part
        finish kind start [type, right]
      match ← optional next with
      | some more => longer steps more
      | none => pure type
  longer (← get).limit first

def typeRule (rules : Rules) : Parse Node := do
  let start ← begin
  let subject ← joinedTypes .unionType '|' (joinedTypes .intersectionType '&' (unaryType rules))
  let conditional : Parse Node := do
    keyword "extends"
    let bound ← rules .type
    sign "?"
    let consequence ← rules .type
    sign ":"
    let alternative ← rules .type
    finish .conditionalType start
      [subject.as .left, bound.as .right, consequence.as .consequence, alternative.as .alternative]
  conditional <|> pure subject

end Phrasebook.Syntax.Parse
