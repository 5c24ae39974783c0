import Phrasebook.Syntax.Grammar.Class

/-! Expressions: operands with what follows them, operators by how tightly they bind, conditions, assignments
and arrow functions. -/

namespace Phrasebook.Syntax.Parse

/-- How tightly the operators between two operands bind; a greater number binds tighter. -/
def binaryLevel : String → Option Nat
  | "??" => some 1
  | "||" => some 2
  | "&&" => some 3
  | "|" => some 4
  | "^" => some 5
  | "&" => some 6
  | "==" | "!=" | "===" | "!==" => some 7
  | "<" | ">" | "<=" | ">=" | "instanceof" | "in" => some 8
  | "<<" | ">>" | ">>>" => some 9
  | "+" | "-" => some 10
  | "*" | "/" | "%" => some 11
  | "**" => some 12
  | _ => none

def updatingAssignments : List String :=
  ["+=", "-=", "*=", "/=", "%=", "^=", "&=", "|=", ">>=", ">>>=", "<<=", "**=", "&&=", "||=", "??="]

def isAssignable (kind : Kind) : Bool :=
  [Kind.identifier, .undefinedLiteral, .memberExpression, .subscriptExpression, .object, .array,
    .parenthesizedExpression, .nonNullExpression].contains kind

/-- An object or array literal read as the pattern it is on the left of an assignment. -/
def toPattern (node : Node) : Node :=
  match node with
  | ⟨kind, role, text, start, children⟩ =>
    match kind with
    | .object => ⟨.objectPattern, role, text, start, toPatterns children⟩
    | .array => ⟨.arrayPattern, role, text, start, toPatterns children⟩
    | .pair => ⟨.pairPattern, role, text, start, toPatterns children⟩
    | .spreadElement => ⟨.restPattern, role, text, start, toPatterns children⟩
    | .assignmentExpression => ⟨.assignmentPattern, role, text, start, children⟩
    | .shorthandPropertyIdentifier => ⟨.shorthandPropertyIdentifierPattern, role, text, start, children⟩
    | _ => ⟨kind, role, text, start, children⟩
where
  toPatterns : List Node → List Node
    | [] => []
    | child :: rest => toPattern child :: toPatterns rest

def expressions (rules : Rules) (tail : Bool) : Parse Node := do
  let start ← begin
  let first ← rules (.expression tail false)
  if ← sees "," then
    let rest ← many do
      sign ","
      rules (.expression tail false)
    finish .sequenceExpression start (first :: rest)
  else pure first

def parenthesized (rules : Rules) : Parse Node := node .parenthesizedExpression do
  sign "("
  let inside ← expressions rules false
  let type ← optional (typeAscription rules)
  sign ")"
  pure ([inside] ++ type.toList)

def arrowFunction (rules : Rules) (tail plain : Bool) : Parse Node := do
  let start ← begin
  let head : Parse (List Node) := do
    let single : Parse (List Node) := do
      let name ← anyWord .identifier
      if operandWords.contains name.text then failure
      pure [name.as .parameter]
    let listed : Parse (List Node) := signature rules (!plain)
    if (← nextSign).isSome then listed else single
  let arrow (isAsync : Bool) : Parse Node := do
    if isAsync then
      keyword "async"
      if ← onNextLine then failure
    let parameters ← head
    sign "=>"
    let body ← do
      if ← sees "\x7b" then rules .block <|> rules (.expression tail plain)
      else rules (.expression tail plain)
    finish .arrowFunction start (parameters ++ [body.as .body])
  arrow true <|> arrow false

def importOperand : Parse Node := do
  let start ← begin
  let word ← wordNode .importWord "import"
  if ← accept "." then
    let _ ← anyWord .propertyIdentifier
    finish .metaProperty start []
  else pure word

def newOperand (rules : Rules) (primary : Parse Node) : Parse Node := do
  let start ← begin
  keyword "new"
  if ← accept "." then
    let _ ← anyWord .propertyIdentifier
    finish .metaProperty start []
  else
    let inner ← begin
    let first ← primary
    let rec longer (steps : Nat) (target : Node) : Parse Node := do
      match steps with
      | 0 => pure target
      | steps + 1 =>
        let access : Parse Node := do
          sign "."
          let name ← privateName <|> anyWord .propertyIdentifier
          finish .memberExpression inner [target.as .object, name.as .property]
        let index : Parse Node := do
          sign "["
          let key ← expressions rules false
          sign "]"
          finish .subscriptExpression inner [target.as .object, key.as .index]
        let sure : Parse Node := do
          sign "!"
          finish .nonNullExpression inner [target]
        match ← optional (access <|> index <|> sure) with
        | some next => longer steps next
        | none => pure target
    let target ← longer (← get).limit first
    let types ← optional do
      let given ← typeArguments rules
      if !(← sees "(") then failure
      pure given
    let given ← optional (argumentList rules)
    finish .newExpression start
      ([target.as .value] ++ types.toList ++ (given.map (·.as .arguments)).toList)

def primary (rules : Rules) (tail plain : Bool) : Parse Node := do
  let cursor ← peek
  match ← wordAt cursor with
  | some word =>
    match word with
    | "function" => functionRule rules .functionExpression .generatorFunction false
    | "class" => classRule rules .classExpression false
    | "this" => wordNode .thisExpression word
    | "super" => wordNode .superExpression word
    | "true" => wordNode .trueLiteral word
    | "false" => wordNode .falseLiteral word
    | "null" => wordNode .nullLiteral word
    | "undefined" => wordNode .undefinedLiteral word
    | "import" => importOperand
    | "async" =>
      functionRule rules .functionExpression .generatorFunction false <|> arrowFunction rules tail plain <|>
        anyWord .identifier
    | _ =>
      if operandWords.contains word then failure
      else arrowFunction rules tail plain <|> anyWord .identifier
  | none =>
    match cursor.rest with
    | [] => failure
    | c :: rest =>
      if c = '(' then arrowFunction rules tail plain <|> parenthesized rules
      else if c = '[' then arrayLiteral rules
      else if c = '\x7b' then objectLiteral rules
      else if c = '\'' || c = '"' then stringLiteral
      else if c = '`' then
        template .templateString .templateSubstitution do pure [← expressions rules false]
      else if c = '/' then regularExpression
      else if c.isDigit then numberLiteral
      else if c = '.' then numberLiteral
      else if c = '#' then privateName
      else if c = '@' then classRule rules .classExpression false
      else if c = '<' then
        arrowFunction rules tail plain <|>
          (do if (← get).dialect = .markup then rules .element else failure)
      else if rest.isEmpty then failure
      else failure

/-- Signs behind which type arguments without a call are complete. -/
def afterTypeArguments : List String :=
  [")", "]", ",", ";", ":", "\x7d", "=", "==", "!=", "===", "!==", "&&", "||", "??", "?", ".", "?."]

def suffixes (rules : Rules) (tail : Bool) (start : Cursor) (target : Node) : Nat → Parse Node
  | 0 => pure target
  | steps + 1 => do
    if ← closes tail then pure target
    else
      let again (node : Node) : Parse Node := suffixes rules tail start node steps
      let typedCall (before : List Node) : Parse Node := do
        let types ← typeArguments rules
        let given ← argumentList rules
        finish .callExpression start ([target.as .function] ++ before ++ [types, given.as .arguments])
      match ← nextSign with
      | some "." =>
        sign "."
        let name ← privateName <|> anyWord .propertyIdentifier
        again (← finish .memberExpression start [target.as .object, name.as .property])
      | some "?." =>
        let call : Parse Node := do
          sign "?."
          let types ← optional (typeArguments rules)
          let given ← argumentList rules
          finish .callExpression start ([target.as .function] ++ types.toList ++ [given.as .arguments])
        let index : Parse Node := do
          let chain ← signNode .optionalChain "?."
          sign "["
          let key ← expressions rules false
          sign "]"
          finish .subscriptExpression start [target.as .object, chain, key.as .index]
        let access : Parse Node := do
          let chain ← signNode .optionalChain "?."
          let name ← privateName <|> anyWord .propertyIdentifier
          finish .memberExpression start [target.as .object, chain, name.as .property]
        again (← call <|> index <|> access)
      | some "[" =>
        sign "["
        let key ← expressions rules false
        sign "]"
        again (← finish .subscriptExpression start [target.as .object, key.as .index])
      | some "(" =>
        let given ← argumentList rules
        again (← finish .callExpression start [target.as .function, given.as .arguments])
      | some "!" =>
        sign "!"
        again (← finish .nonNullExpression start [target])
      | some "++" =>
        sign "++"
        finish .updateExpression start [target]
      | some "--" =>
        sign "--"
        finish .updateExpression start [target]
      | some "<" | some "<<" =>
        let instantiation : Parse Node := do
          let types ← typeArguments rules
          let complete ← match ← nextSign with
            | some text => pure (afterTypeArguments.contains text)
            | none => pure ((← peek).rest.isEmpty || (← closes tail))
          if !complete then failure
          finish .instantiationExpression start [target, types]
        match ← optional (typedCall [] <|> instantiation) with
        | some longer => again longer
        | none => pure target
      | some _ => pure target
      | none =>
        if (← peek).rest.head? == some '`' then
          let given ← template .templateString .templateSubstitution do pure [← expressions rules false]
          again (← finish .callExpression start [target.as .function, given.as .arguments])
        else pure target

def assignmentOrOperand (rules : Rules) (tail plain : Bool) : Parse Node := do
  let start ← begin
  let first ←
    if ← seesWord "new" then newOperand rules (do
      if ← seesWord "new" then rules (.operand false false 14) else primary rules false plain)
    else primary rules tail plain
  let target ←
    if first.kind = .arrowFunction && (first.child? .body).any (fun body => body.kind ≠ .statementBlock) then
      pure first
    else suffixes rules tail start first (← get).limit
  if isAssignable target.kind && !(← closes tail) then
    match ← nextSign with
    | some "=" =>
      sign "="
      let value ← rules (.expression tail plain)
      finish .assignmentExpression start [(toPattern target).as .left, value.as .right]
    | some text =>
      if updatingAssignments.contains text then
        sign text
        let value ← rules (.expression tail plain)
        finish .augmentedAssignmentExpression start [target.as .left, value.as .right]
      else pure target
    | none => pure target
  else pure target

def unary (rules : Rules) (tail plain : Bool) : Parse Node := do
  let inner : Parse Node := rules (.operand tail plain 13)
  let signed (text : String) (kind : Kind) : Parse Node := node kind do
    sign text
    pure [← inner]
  let worded (text : String) (kind : Kind) : Parse Node := node kind do
    keyword text
    pure [← inner]
  let cast : Parse Node := do
    if (← get).dialect = .markup then failure
    node .typeAssertion do
      let types ← typeArguments rules
      pure [types, ← inner]
  match ← nextSign with
  | some "!" => signed "!" .unaryExpression
  | some "~" => signed "~" .unaryExpression
  | some "-" => signed "-" .unaryExpression
  | some "+" => signed "+" .unaryExpression
  | some "++" => signed "++" .updateExpression
  | some "--" => signed "--" .updateExpression
  | some "<" | some "<<" => assignmentOrOperand rules tail plain <|> cast
  | some _ => assignmentOrOperand rules tail plain
  | none =>
    match ← nextWord with
    | some "typeof" => worded "typeof" .unaryExpression
    | some "void" => worded "void" .unaryExpression
    | some "delete" => worded "delete" .unaryExpression
    | some "await" => worded "await" .awaitExpression
    | _ => assignmentOrOperand rules tail plain

/-- The operator between two operands that comes next, with how tightly it binds. -/
def nextOperator : Parse (Option (String × Nat)) := do
  match ← nextSign with
  | some text => pure ((binaryLevel text).map fun level => (text, level))
  | none =>
    match ← nextWord with
    | some "in" => pure (some ("in", 8))
    | some "instanceof" => pure (some ("instanceof", 8))
    | _ => pure none

/-- Continues an operand by operators that bind at least as tightly as `level`; the widest ones may also be
followed by a type. -/
def operators (rules : Rules) (tail plain : Bool) (level : Nat) (start : Cursor) (left : Node) : Nat → Parse Node
  | 0 => pure left
  | steps + 1 => do
    if ← closes tail then pure left
    else
      let word ← nextWord
      if level = 0 && (word == some "as" || word == some "satisfies") then
        let isCast := word == some "as"
        keyword (if isCast then "as" else "satisfies")
        let constant : Parse (List Node) := do
          if !isCast then failure
          keyword "const"
          pure []
        let type ← constant <|> (do pure [← rules .type])
        let typed ← finish (if isCast then .asExpression else .satisfiesExpression) start (left :: type)
        operators rules tail plain level start typed steps
      else
        match ← nextOperator with
        | none => pure left
        | some (text, tightness) =>
          if tightness < level then pure left
          else
            let further : Parse Node := do
              let operator ←
                if text == "in" || text == "instanceof" then wordNode .operator text else signNode .operator text
              let right ← rules (.operand tail plain (if text == "**" then 12 else tightness + 1))
              finish .binaryExpression start [left.as .left, operator.as .operator, right.as .right]
            match ← optional further with
            | some joined => operators rules tail plain level start joined steps
            | none => failure

def operandRule (rules : Rules) (tail plain : Bool) (level : Nat) : Parse Node := do
  let start ← begin
  if level ≥ 14 then
    newOperand rules (primary rules false plain)
  else
    let first ← unary rules tail plain
    operators rules tail plain level start first (← get).limit

def expressionRule (rules : Rules) (tail plain : Bool) : Parse Node := do
  if ← seesWord "yield" then
    node .yieldExpression do
      keyword "yield"
      if ← accept "*" then pure [← rules (.expression tail plain)]
      else if ← closes tail then pure []
      else pure (← optional (rules (.expression tail plain))).toList
  else
    let start ← begin
    let condition ← operandRule rules tail plain 0
    if (← sees "?") && !(← closes tail) then
      sign "?"
      let consequence (plainParameters : Bool) : Parse Node := do
        let value ← rules (.expression false plainParameters)
        sign ":"
        pure value
      let consequence ← consequence false <|> consequence true
      let alternative ← rules (.expression tail plain)
      finish .ternaryExpression start
        [condition.as .condition, consequence.as .consequence, alternative.as .alternative]
    else pure condition

end Phrasebook.Syntax.Parse
