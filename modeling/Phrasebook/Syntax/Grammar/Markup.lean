import Phrasebook.Syntax.Grammar.Expression

/-! Markup inside scripts: elements with attributes, embedded expressions and text. -/

namespace Phrasebook.Syntax.Parse

/-- How far a name goes on behind a word with hyphens. -/
def hyphenatedLength (word : String) (behind : List Char) : Nat :=
  let plain (c : Char) : Bool := c.isAlphanum || c = '_' || c = '$'
  if behind.head? == some '-' && word.toList.all plain then
    word.length + (behind.takeWhile fun c => plain c || c = '-').length
  else word.length

def markupName (kind : Kind) : Parse Node := do
  let cursor ← peek
  match ← wordAt cursor with
  | none => failure
  | some word => leaf kind (hyphenatedLength word (cursor.rest.drop word.length))

def spacedName (kind : Kind) : Parse Node := do
  let start ← begin
  let first ← markupName kind
  if ← sees ":" then
    sign ":"
    let second ← markupName .identifier
    finish .jsxNamespaceName start [{ first with kind := .identifier }, second]
  else pure first

def elementName : Parse Node := do
  let start ← begin
  let first ← spacedName .identifier
  if first.kind = .identifier && (← sees ".") then
    memberChain start .memberExpression .propertyIdentifier first (← get).limit
  else pure first

def embedded (rules : Rules) : Parse Node := node .jsxExpression do
  sharp '\x7b'
  let spread : Parse Node := node .spreadElement do
    sign "..."
    pure [← rules (.expression false false)]
  let inside ← optional (spread <|> expressions rules false)
  sharp '\x7d'
  pure inside.toList

/-- The length of a character reference such as `&name;` or `&#10;`, zero when none stands at the start of a
text. -/
def referenceLength : List Char → Nat
  | '&' :: '#' :: x :: rest =>
    let closing (start limit : Nat) (digits : List Char) : Nat :=
      if 0 < digits.length && digits.length ≤ limit then start + digits.length + 1 else 0
    let length :=
      if x = 'x' || x = 'X' then closing 3 6 (rest.takeWhile isHexDigit)
      else closing 2 5 ((x :: rest).takeWhile Char.isDigit)
    if length > 0 && ('&' :: '#' :: x :: rest)[length - 1]? == some ';' then length else 0
  | '&' :: rest =>
    let name := rest.takeWhile Char.isAlpha
    if 0 < name.length && name.length ≤ 30 && (rest.drop name.length).head? == some ';' then name.length + 2 else 0
  | _ => 0

/-- The length of a run of plain characters in an attribute's text. An ampersand is plain when neither a letter
nor a number sign follows it, and then takes the next character with it. -/
def attributeRun (quote : Char) : List Char → Nat
  | [] => 0
  | '&' :: c :: rest => if c = '#' || c.isAlpha then 0 else 2 + attributeRun quote rest
  | c :: rest => if c = quote || c = '&' then 0 else 1 + attributeRun quote rest

def attributeText : Parse Node := do
  match (← peek).rest with
  | quote :: _ =>
    if quote = '\'' || quote = '"' then
      node .stringLiteral do
        take 1
        let piece : Parse Node := do
          let rest := (← get).cursor.rest
          let plain := attributeRun quote rest
          if plain > 0 then raw .stringFragment plain
          else if referenceLength rest > 0 then raw .htmlCharacterReference (referenceLength rest)
          else failure
        let pieces ← many piece
        rawSign quote
        pure pieces
    else failure
  | [] => failure

def elementAttribute (rules : Rules) : Parse Node := do
  let named : Parse Node := node .jsxAttribute do
    let name ← spacedName .propertyIdentifier
    if ← sees "=" then
      sign "="
      let value ← attributeText <|> embedded rules <|> rules .element
      pure [name, value]
    else pure [name]
  named <|> embedded rules

/-- Whether a run of text in an element shows: it has a character that is not part of a line break with the
blanks behind it. -/
def showsText (cs : List Char) : Bool := scan false cs
where
  scan (atLineStart : Bool) : List Char → Bool
    | [] => false
    | '\n' :: rest => scan true rest
    | c :: rest => if atLineStart && isSeparator c then scan true rest else true

def elementPart (rules : Rules) : Parse (List Node) := do
  let rest := (← get).cursor.rest
  match rest with
  | [] => failure
  | c :: next =>
    if c = '<' then
      if next.head? == some '/' then failure
      match markupCommentLength? rest with
      | some length => pure [← raw .htmlComment length]
      | none => pure [← rules .element]
    else if c = '\x7b' then pure [← embedded rules]
    else if c = '&' then
      let length := referenceLength rest
      if length = 0 then failure else pure [← raw .htmlCharacterReference length]
    else
      let text := rest.takeWhile fun c => !"<>\x7b\x7d&".toList.contains c
      if text.isEmpty then failure
      if showsText text then pure [← raw .jsxText text.length]
      else
        take text.length
        pure []

/-- The tag that ends an element. Its name need not be the element's. -/
def closingTag : Parse Node := node .jsxClosingElement do
  let start ← peek
  if !"</".toList.isPrefixOf start.rest then failure
  take 2
  let name ← optional elementName
  sharp '>'
  pure (name.map (·.as .name)).toList

/-- The rule for elements. A closing tag need not repeat the name of its opening tag. -/
def elementRule (rules : Rules) : Parse Node := do
  let start ← begin
  sharp '<'
  let name ← optional elementName
  let types ← if name.isSome then optional (typeArguments rules) else pure none
  refresh
  let attributes ← if name.isSome then many (elementAttribute rules <* refresh) else pure []
  let head := (name.map (·.as .name)).toList ++ types.toList ++ attributes
  let selfClosing : Parse Node := do
    if name.isNone || !"/>".toList.isPrefixOf (← peek).rest then failure
    let _ ← begin
    take 2
    finish .jsxSelfClosingElement start head
  let paired : Parse Node := do
    sharp '>'
    let openTag ← finish .jsxOpeningElement start head
    let parts ← many (elementPart rules)
    let closeTag ← closingTag
    finish .jsxElement start ([openTag.as .openTag] ++ parts.flatten ++ [closeTag.as .closeTag])
  selfClosing <|> paired

end Phrasebook.Syntax.Parse
