import Phrasebook.Syntax.Grammar.Markup

/-! Statements and declarations, and the rule for all parts of syntax. -/

namespace Phrasebook.Syntax.Parse

/-- Words that start a statement of their own wherever a statement may start. -/
def statementWords : List String :=
  ["if", "switch", "for", "while", "do", "try", "with", "break", "continue", "return", "throw", "debugger", "var",
   "const", "function", "class", "import", "export", "interface", "enum"]

def declarator (rules : Rules) : Parse Node := node .variableDeclarator do
  let target ← rules .binding
  let _ ← if target.kind = .identifier then accept "!" else pure false
  let type ← optional (typeAscription rules)
  let value ← optional (initialValue rules true)
  pure ([target.as .name] ++ type.toList ++ value.toList)

def declarators (rules : Rules) : Parse (List Node) := do
  let items ← commaSome (declarator rules)
  let ended := items.getLast?.any fun item => (item.child? .value).isSome
  semicolon (if ended then .expression else .bare)
  pure items

def lexicalDeclaration (rules : Rules) : Parse Node := node .lexicalDeclaration do
  keyword "const" <|> keyword "let"
  declarators rules

def variableDeclaration (rules : Rules) : Parse Node := node .variableDeclaration do
  keyword "var"
  declarators rules

def enumDeclaration (rules : Rules) : Parse Node := node .enumDeclaration do
  let _ ← acceptWord "const"
  keyword "enum"
  let name ← anyWord .identifier
  let member : Parse Node := do
    let start ← begin
    let name ← propertyName rules
    match ← optional (initialValue rules false) with
    | some value => finish .enumAssignment start [name.as .name, value]
    | none => pure (name.as .name)
  let body ← node .enumBody do
    sign "\x7b"
    let members ← commaList member
    sign "\x7d"
    pure members
  pure [name.as .name, body.as .body]

def interfaceDeclaration (rules : Rules) : Parse Node := node .interfaceDeclaration do
  keyword "interface"
  let name ← anyWord .typeIdentifier
  let types ← optional (typeParameters rules)
  let bases ← optional (node .extendsTypeClause do
    keyword "extends"
    commaSome (namedType rules))
  let body ← objectType rules .interfaceBody
  pure ([name.as .name] ++ types.toList ++ bases.toList ++ [body.as .body])

def typeAlias (rules : Rules) : Parse Node := node .typeAliasDeclaration do
  keyword "type"
  let name ← anyWord .typeIdentifier
  let types ← optional (typeParameters rules)
  sign "="
  let value ← rules .type
  semicolon .bare
  pure ([name.as .name] ++ types.toList ++ [value.as .value])

def moduleName : Parse Node := do
  let start ← begin
  let first ← anyWord .identifier
  memberChain start .nestedIdentifier .propertyIdentifier first (← get).limit

def moduleRule (rules : Rules) (word : String) (kind : Kind) : Parse Node := node kind do
  keyword word
  if ← onNextLine then failure
  let name ← stringLiteral <|> moduleName
  let body ← optional (rules .block)
  if body.isNone then semicolon .bare
  pure ([name.as .name] ++ (body.map (·.as .body)).toList)

def importAlias : Parse Node := node .importAlias do
  keyword "import"
  let name ← anyWord .identifier
  sign "="
  let target ← moduleName
  semicolon .bare
  pure [name, target]

def moduleItem : Parse Node := stringLiteral <|> anyWord .identifier

def specifier (kind : Kind) : Parse Node := node kind do
  let renamed : Parse (List Node) := do
    let name ← moduleItem
    keyword "as"
    pure [name.as .name, ← moduleItem]
  let plain : Parse (List Node) := do pure [(← moduleItem).as .name]
  let typed : Parse (List Node) := do
    keyword "type" <|> keyword "typeof"
    let items ← renamed <|> plain
    if !(← sees ",") && !(← sees "\x7d") then failure
    pure items
  typed <|> renamed <|> plain

def braced (kind item : Kind) : Parse Node := node kind do
  sign "\x7b"
  let items ← commaList (specifier item)
  sign "\x7d"
  pure items

def source : Parse Node := do
  keyword "from"
  stringLiteral

def importAttributes (rules : Rules) : Parse Node := node .importAttribute do
  keyword "with" <|> keyword "assert"
  let _ := rules
  pure [← objectLiteral rules]

def importStatement (rules : Rules) : Parse Node := node .importStatement do
  keyword "import"
  let all : Parse Node := node .namespaceImport do
    sign "*"
    keyword "as"
    pure [← anyWord .identifier]
  let named : Parse Node := braced .namedImports .importSpecifier
  let clause : Parse Node := node .importClause do
    let first : Parse (List Node) := do
      let name ← anyWord .identifier
      if ← accept "," then pure [name, ← all <|> named] else pure [name]
    (do pure [← all <|> named]) <|> first
  let required : Parse (List Node) := do
    let given ← node .importRequireClause do
      let name ← anyWord .identifier
      sign "="
      keyword "require"
      sign "("
      let text ← stringLiteral
      sign ")"
      pure [name, text]
    pure [given]
  let fromClause : Parse (List Node) := do
    let given ← clause
    pure [given, ← source]
  let bare : Parse (List Node) := do pure [← stringLiteral]
  let typed : Parse (List Node) := do
    keyword "type" <|> keyword "typeof"
    fromClause <|> required
  let parts ← typed <|> fromClause <|> required <|> bare
  let attributes ← optional (importAttributes rules)
  semicolon .bare
  pure (parts ++ attributes.toList)

/-- Declarations, which a module may export. -/
def declarationRule (rules : Rules) : Nat → Parse Node
  | 0 => failure
  | steps + 1 => do
    let function : Parse Node :=
      functionRule rules .functionDeclaration .generatorFunctionDeclaration true <|> functionSignature rules
    let ambient : Parse Node := node .ambientDeclaration do
      keyword "declare"
      if ← onNextLine then failure
      let globals : Parse Node := do
        keyword "global"
        rules .block
      pure [← globals <|> declarationRule rules steps]
    match ← nextWord with
    | some "function" => function
    | some "async" => function
    | some "class" => classRule rules .classDeclaration true
    | some "abstract" => classRule rules .abstractClassDeclaration true
    | some "const" => enumDeclaration rules <|> lexicalDeclaration rules
    | some "let" => lexicalDeclaration rules
    | some "var" => variableDeclaration rules
    | some "enum" => enumDeclaration rules
    | some "interface" => interfaceDeclaration rules
    | some "type" => typeAlias rules
    | some "namespace" => moduleRule rules "namespace" .internalModule
    | some "module" => moduleRule rules "module" .moduleDeclaration
    | some "import" => importAlias
    | some "declare" => ambient
    | _ => failure

def exportStatement (rules : Rules) : Parse Node := do
  let start ← begin
  let decorators ← many (decorator rules)
  keyword "export"
  let clause : Parse Node := braced .exportClause .exportSpecifier
  let all : Parse (List Node) := do
    sign "*"
    let name ← optional (do
      keyword "as"
      moduleItem)
    pure (name.toList ++ [← source])
  let listed : Parse (List Node) := do
    let given ← clause
    pure ([given] ++ (← optional source).toList)
  let typed : Parse (List Node) := do
    keyword "type"
    all <|> listed
  let simple : Parse (List Node) := do
    let parts ← all <|> listed <|> typed
    let _ ← optional (importAttributes rules)
    semicolon .bare
    pure parts
  let standard : Parse (List Node) := do
    keyword "default"
    let declared : Parse (List Node) := do
      if ← sees "@" then pure [(← classRule rules .classDeclaration true).as .declaration]
      else pure [(← declarationRule rules (← get).limit).as .declaration]
    let value : Parse (List Node) := do
      let given ← rules (.expression true false)
      semicolon .expression
      pure [given.as .value]
    declared <|> value
  let assigned : Parse (List Node) := do
    sign "="
    let given ← rules (.expression true false)
    semicolon .expression
    pure [given]
  let globalName : Parse (List Node) := do
    keyword "as"
    keyword "namespace"
    let name ← anyWord .identifier
    semicolon .bare
    pure [name]
  let declared : Parse (List Node) := do
    if ← sees "@" then pure [(← classRule rules .classDeclaration true).as .declaration]
    else pure [(← declarationRule rules (← get).limit).as .declaration]
  let parts ← simple <|> standard <|> assigned <|> globalName <|> declared
  finish .exportStatement start (decorators ++ parts)

def condition (rules : Rules) : Parse Node := do pure ((← parenthesized rules).as .condition)

/-- The rule for blocks. A comment behind the closing brace belongs to the block when nothing else follows on its
line. -/
def blockRule (rules : Rules) : Parse Node := node .statementBlock do
  sign "\x7b"
  let statements ← many (rules .statement)
  sign "\x7d"
  trailingComments
  pure statements

def ifStatement (rules : Rules) : Parse Node := node .ifStatement do
  keyword "if"
  let test ← condition rules
  let consequence ← rules .statement
  let alternative ← optional (node .elseClause do
    keyword "else"
    pure [← rules .statement])
  pure ([test, consequence.as .consequence] ++ (alternative.map (·.as .alternative)).toList)

def switchStatement (rules : Rules) : Parse Node := node .switchStatement do
  keyword "switch"
  let subject ← parenthesized rules
  let branch : Parse Node := do
    let start ← begin
    let head : Parse (Kind × List Node) := do
      if ← acceptWord "case" then
        let value ← expressions rules false
        pure (.switchCase, [value.as .value])
      else
        keyword "default"
        pure (.switchDefault, [])
    let (kind, before) ← head
    sign ":"
    let statement : Parse Node := do
      if ← seesWord "case" then failure
      if ← seesWord "default" then failure
      rules .statement
    let statements ← many statement
    finish kind start (before ++ statements.map (·.as .body))
  let body ← node .switchBody do
    sign "\x7b"
    let branches ← many branch
    sign "\x7d"
    pure branches
  pure [subject.as .value, body.as .body]

def forInStatement (rules : Rules) : Parse Node := node .forInStatement do
  keyword "for"
  let _ ← acceptWord "await"
  sign "("
  let declared : Parse (List Node) := do
    keyword "var" <|> keyword "let" <|> keyword "const"
    let target ← rules .binding
    let value ← optional (initialValue rules false)
    pure ([target.as .left] ++ value.toList)
  let plain : Parse (List Node) := do
    let target ← rules (.operand false false 13)
    if isAssignable target.kind then pure [(toPattern target).as .left] else failure
  let link : Parse Unit := keyword "in" <|> keyword "of"
  let left ← (do
      let found ← declared
      link
      pure found) <|> (do
      let found ← plain
      link
      pure found)
  let right ← expressions rules false
  sign ")"
  let body ← rules .statement
  pure (left ++ [right.as .right, body.as .body])

def emptyStatement : Parse Node := signNode .emptyStatement ";"

def forStatement (rules : Rules) : Parse Node := node .forStatement do
  keyword "for"
  sign "("
  let valued : Parse Node := do
    let value ← expressions rules false
    sign ";"
    pure value
  let start ← emptyStatement <|> lexicalDeclaration rules <|> variableDeclaration rules <|> valued
  let test ← emptyStatement <|> valued
  let step ← optional (expressions rules false)
  sign ")"
  let body ← rules .statement
  pure ([start, test.as .condition] ++ step.toList ++ [body.as .body])

def tryStatement (rules : Rules) : Parse Node := node .tryStatement do
  keyword "try"
  let body ← rules .block
  let handler ← optional (node .catchClause do
    keyword "catch"
    let caught ← optional (do
      sign "("
      let target ← rules .binding
      let type ← optional (typeAscription rules)
      sign ")"
      pure ([target.as .parameter] ++ type.toList))
    let block ← rules .block
    pure (caught.getD [] ++ [block.as .body]))
  let last ← optional (node .finallyClause do
    keyword "finally"
    pure [(← rules .block).as .body])
  pure ([body.as .body] ++ handler.toList ++ last.toList)

def jump (kind : Kind) (word : String) : Parse Node := node kind do
  keyword word
  let reading ← get
  let target ← if endsHere reading.limit .bare reading.cursor then pure none
    else optional (anyWord .statementIdentifier)
  semicolon .bare
  pure target.toList

def giveUp (rules : Rules) (kind : Kind) (word : String) (valueNeeded : Bool) : Parse Node := node kind do
  keyword word
  let reading ← get
  if !valueNeeded && endsHere reading.limit .bare reading.cursor then pure []
  else
    match ← optional (expressions rules true) with
    | some value =>
      semicolon .expression
      pure [value]
    | none =>
      if valueNeeded then failure
      semicolon .bare
      pure []

def expressionStatement (rules : Rules) : Parse Node := node .expressionStatement do
  let value ← expressions rules true
  semicolon .expression
  pure [value]

def labeledStatement (rules : Rules) : Parse Node := node .labeledStatement do
  let label ← anyWord .statementIdentifier
  sign ":"
  pure [label, (← rules .statement).as .body]

/-- A statement that starts with a brace. Where a name and a colon follow, an object is tried first, otherwise a
block. -/
def bracedStatement (rules : Rules) : Parse Node := do
  let named : Parse Unit := do
    sign "\x7b"
    let _ ← anyWord .identifier
    sign ":"
  let saved ← get
  let isNamed := (← optional named).isSome
  set saved
  if isNamed then expressionStatement rules <|> rules .block
  else rules .block <|> expressionStatement rules

def statementRule (rules : Rules) : Parse Node := do
  let declaration : Parse Node := do declarationRule rules (← get).limit
  match ← nextSign with
  | some "\x7b" => bracedStatement rules
  | some ";" => emptyStatement
  | some "@" =>
    exportStatement rules <|> classRule rules .classDeclaration true <|>
      classRule rules .abstractClassDeclaration true <|> expressionStatement rules
  | some _ => expressionStatement rules
  | none =>
    match ← nextWord with
    | none => expressionStatement rules
    | some word =>
      match word with
      | "if" => ifStatement rules
      | "switch" => switchStatement rules
      | "for" => forInStatement rules <|> forStatement rules
      | "while" => node .whileStatement do
        keyword "while"
        let test ← condition rules
        pure [test, (← rules .statement).as .body]
      | "do" => node .doStatement do
        keyword "do"
        let body ← rules .statement
        keyword "while"
        let test ← condition rules
        let _ ← optional (semicolon .bare)
        pure [body.as .body, test]
      | "try" => tryStatement rules
      | "with" => node .withStatement do
        keyword "with"
        let subject ← parenthesized rules
        pure [subject, (← rules .statement).as .body]
      | "break" => jump .breakStatement word
      | "continue" => jump .continueStatement word
      | "return" => giveUp rules .returnStatement word false
      | "throw" => giveUp rules .throwStatement word true
      | "debugger" => jump .debuggerStatement word
      | "var" | "const" | "interface" | "enum" => declaration
      | "function" | "class" => declaration <|> expressionStatement rules
      | "import" => importStatement rules <|> importAlias <|> expressionStatement rules
      | "export" => exportStatement rules
      | _ => labeledStatement rules <|> declaration <|> expressionStatement rules

/-- The rule of every goal, in terms of the rules for smaller goals. -/
def rule (rules : Rules) : Goal → Parse Node
  | .expression tail plain => expressionRule rules tail plain
  | .operand tail plain level => operandRule rules tail plain level
  | .statement => statementRule rules
  | .block => blockRule rules
  | .binding => bindingRule rules
  | .type => typeRule rules
  | .element => elementRule rules

/-- Reads a goal whose parts contain one another at most `depth` deep. -/
def goal : (depth : Nat) → Rules
  | 0 => fun _ => failure
  | depth + 1 => rule (goal depth)

/-- A whole script: its first line may name an interpreter, and nothing is left behind its last statement. -/
def program (depth : Nat) : Parse Node := do
  let start := (← get).cursor
  let interpreter : Parse Node := do
    let rest := (← get).cursor.rest
    if "#!".toList.isPrefixOf rest then
      raw .hashBangLine (rest.takeWhile fun c => c != '\n').length
    else failure
  let _ ← if start.rest.head? == some '\ufeff' then take 1 else pure ()
  let head ← optional interpreter
  refresh
  let begun ← peek
  let statements ← many (goal depth .statement)
  let _ ← begin
  let reading ← get
  if !reading.cursor.rest.isEmpty then failure
  set { reading with comments := [] }
  let children := inOrder (head.toList ++ statements) reading.comments.reverse
  let first := if head.isSome then start else begun
  pure (first.node .program reading.cursor children)

end Phrasebook.Syntax.Parse
