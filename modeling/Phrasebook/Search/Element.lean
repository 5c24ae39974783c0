import Phrasebook.Markup.Text
import Phrasebook.Search.Sighting
import Phrasebook.Text.Capital

/-! Elements whose content is a text to translate, such as `<Trans>`. Elements inside the content are written as
numbered tags, so that translations can keep them. -/

namespace Phrasebook

open Catalog Syntax

inductive Piece where
  | text (value : String)
  /-- An object or a name in braces, by the names it offers. -/
  | place (names : List String)
  /-- An element inside the content, with the number of its attributes. -/
  | element (name : Option String) (attributes : Nat) (isComponent : Bool) (content : List Piece)
deriving Repr, Inhabited

namespace Piece

/-- The place for a value in a text; a format may be asked for beside one name. -/
def placeText (names : List String) : String :=
  match names.filter (· ≠ "format") with
  | [name] =>
    let value := if names.contains "format" then name ++ ", format" else name
    "\x7b\x7b" ++ value ++ "\x7d\x7d"
  | _ => ""

def tagged (name content : String) : String := "<" ++ name ++ ">" ++ content ++ "</" ++ name ++ ">"

mutual

/-- The text of a part that stands at a given place among its neighbours. Plain elements of the kept names keep
their tags if there is nothing but text in them; others are numbered. -/
def render (kept : List String) (index : Nat) : Piece → String
  | .text value => value
  | .place names => placeText names
  | .element name attributes isComponent content =>
    let keptName : Option String := if isComponent || 0 < attributes then none else name.filter kept.contains
    match keptName, content with
    | some name, [] => "<" ++ name ++ "/>"
    | some name, [.text value] => tagged name value
    | _, content => tagged (toString index) (renderAll kept 0 content)

def renderAll (kept : List String) (index : Nat) : List Piece → String
  | [] => ""
  | piece :: rest => render kept index piece ++ renderAll kept (index + 1) rest

end

end Piece

def openTag? (element : Node) : Option Node :=
  if element.kind = .jsxElement then element.child? .openTag else some element

def elementName? (element : Node) : Option Node := (openTag? element).bind fun tag => tag.child? .name

def attributesOf (element : Node) : List Node :=
  match openTag? element with
  | some tag => tag.parts.filter fun part => part.kind = .jsxAttribute
  | none => []

def attributeTable (element : Node) : List (String × Option Node) :=
  Table.ofList ((attributesOf element).filterMap fun item =>
    match item.parts with
    | [] => none
    | name :: rest => some (name.text, rest.head?))

/-- The expression in an attribute's braces, or the text that is its value. -/
def attributeExpression? (value : Option Node) : Option Node :=
  value.bind fun value =>
    if value.kind = .jsxExpression then (value.parts.head?).bind Node.unwrap else some value

/-- The text of an attribute. There are no escapes in a text that is no expression. -/
def attributeText? (value : Option Node) : Except Failure (Option String) := do
  match value with
  | none => pure none
  | some node =>
    if node.kind = .stringLiteral then pure (some node.quoted)
    else
      match attributeExpression? (some node) with
      | some expression => expression.stringValue?
      | none => pure none

def shownBetween (element : Node) (start finish : Nat) : List Piece :=
  if finish ≤ start then []
  else ((Markup.shownText? (Markup.decodeReferences (element.slice start finish))).map Piece.text).toList

/-- Whether a node is a part of an element's content of its own, not text. -/
def isContent (node : Node) : Bool :=
  node.kind = .jsxExpression || node.kind = .jsxElement || node.kind = .jsxSelfClosingElement

/-- The part of a content that an expression in braces makes: a text, a place for a value, or an element. Of two
texts to choose from the second counts if it continues the first. -/
def pieceOfExpression (expression : Node) : Except Failure (Option Piece) := do
  match expression.kind with
  | .parenthesizedExpression | .asExpression | .satisfiesExpression =>
    match held : expression.parts with
    | [] => pure none
    | inner :: _ =>
      have : inner.size < expression.size := Node.size_lt_of_mem_parts (by simp [held])
      pieceOfExpression inner
  | .ternaryExpression =>
    let first ← match held : expression.child? .consequence with
      | none => pure none
      | some branch =>
        have : branch.size < expression.size := Node.size_lt_of_child? held
        pieceOfExpression branch
    let second ← match held : expression.child? .alternative with
      | none => pure none
      | some branch =>
        have : branch.size < expression.size := Node.size_lt_of_child? held
        pieceOfExpression branch
    match first, second with
    | some (.text short), some (.text long) =>
      pure (some (.text (if Text.startsWith short long then long else short)))
    | first, _ => pure first
  | .stringLiteral => pure ((← expression.stringValue?).map .text)
  | .templateString =>
    pure (some (if expression.isPlainTemplate then .text expression.quoted else .element "expression" 1 false []))
  | .identifier => pure (some (.place [expression.text]))
  | .object => pure (some (.place ((← expression.properties).map Prod.fst)))
  | _ => pure (some (.element "expression" 1 false []))
termination_by expression.size

def piecesOf (element : Node) : Except Failure (List Piece) := do
  match element.child? .openTag, element.child? .closeTag with
  | some start, some finish =>
    let inside := element.children.attach.filter fun ⟨child, _⟩ => isContent child
    let (pieces, reached) ← inside.foldlM (fun (pieces, reached) ⟨child, member⟩ => do
      let before := shownBetween element reached child.start.offset
      let piece : Option Piece ←
        if child.kind = .jsxExpression then
          match child.parts with
          | [] => pure none
          | inner :: _ =>
            if inner.kind = .spreadElement then pure (some (.text "")) else pieceOfExpression inner
        else do
          have : child.size < element.size := Node.size_lt_of_mem_children member
          let name := elementName? child
          let isComponent :=
            match name with
            | some name => name.kind ≠ .identifier || name.text.toList.any Text.isCapital
            | none => true
          let content ← if child.kind = .jsxElement then piecesOf child else pure []
          pure (some (.element (name.map Node.text) (attributesOf child).length isComponent content))
      pure (pieces ++ before ++ piece.toList, child.finish)) (([] : List Piece), start.finish)
    pure (pieces ++ shownBetween element reached finish.start.offset)
  | _, _ => pure []
termination_by element.size

def contentText (kept : List String) (element : Node) : Except Failure String := do
  if element.kind = .jsxElement then pure (Piece.renderAll kept 0 (← piecesOf element)) else pure ""

/-- Whether an element is one whose content is translated, by its name or the last part of it. -/
def isTranslated (components : List String) (element : Node) : Bool :=
  match (elementName? element).map Node.text with
  | some name => components.contains name || components.contains ((Text.split "." name).getLast?.getD name)
  | none => false

namespace Search

/-- The keys that the key attribute of an element names, without its namespace where that is also given by
itself. -/
def keysOfAttribute (value : Option Node) (namespaceName : Option String) : Search (List String) := do
  match value with
  | none => pure []
  | some node =>
    if node.kind = .stringLiteral then
      let key := node.quoted
      match namespaceName.filter (· ≠ ""), (← extraction).namespaceSeparator.mark? with
      | some name, some mark => pure [(Text.dropStart? (name ++ mark) key).getD key]
      | _, _ => pure [key]
    else
      match attributeExpression? (some node) with
      | some expression => keyTexts expression
      | none => pure []

structure ElementSetting where
  namespaceName : Option String
  binding : Option Binding
  defaultText : Option String
  explicit : Bool
  location : Location
  contexts : List String
  moreContexts : Bool
  options : Option Node
  hasCount : Bool
  ordinal : Bool

def reportElementKey (element : ElementSetting) (written : String) : Search Unit := do
  let extraction ← extraction
  let (given, key) :=
    match element.namespaceName,
        (extraction.namespaceSeparator.mark?).map fun mark => (mark, Text.split mark written) with
    | none, some (mark, first :: second :: rest) => (some first, Text.join mark (second :: rest))
    | given, _ => (given, written)
  if !Text.isBlankText key then
    let (given, key) ←
      match element.binding, element.namespaceName with
      | some binding, none =>
        pure (given <|> binding.defaultNamespace, (← withPrefix? (some binding) key).getD key)
      | _, _ => pure (given, key)
    let plural : Option PluralRequest ←
      if element.hasCount && !extraction.disablePlurals then do
        pure (some
          { ordinal := element.ordinal
            forms := ← pluralForms element.options element.ordinal
            default := element.defaultText
            explicitVariants := element.explicit })
      else pure none
    report
      { namespaceName := (given.filter (· ≠ "")).getD extraction.defaultNamespace
        key
        defaultValue := element.defaultText.getD key
        explicit := element.explicit
        location := element.location
        contexts := element.contexts
        moreContexts := element.moreContexts
        plural }

def reportTranslated (element : Node) : Search Unit := do
  let extraction ← extraction
  let attributes := attributeTable element
  let valueOf (name : String) : Option Node := (Table.find? name attributes).join
  let options := (attributeExpression? (valueOf "tOptions")).filter fun options => options.kind = .object
  let namespaceName : Option String ←
    match ← attempt (attributeText? (valueOf "ns")), options with
    | none, some options =>
      match ← attempt (options.propertyLiteral? "ns") with
      | some (.text name) => pure (some name)
      | _ => pure none
    | name, _ => pure name
  let hasCount ←
    if Table.has "count" attributes then pure true
    else
      match (attributeExpression? (valueOf "values")).filter fun values => values.kind = .object with
      | some values => pure (← attempt (values.property "count")).isSome
      | none => pure false
  let contextNode : Option Node ←
    if Table.has "context" attributes then pure (attributeExpression? (valueOf "context"))
    else
      match options with
      | some options => attempt (options.property "context")
      | none => pure none
  let content ← attempt (contentText extraction.keptElements element)
  let defaults ← attempt (attributeText? (valueOf "defaults"))
  let named ←
    if Table.has "i18nKey" attributes then keysOfAttribute (valueOf "i18nKey") namespaceName else pure [content]
  let keys := named.filter fun key => !Text.isBlankText key
  if !keys.isEmpty then
    let explicit ← if defaults.isSome then pure true else givesDefaults options
    let binding ←
      match attributeExpression? (valueOf "t") with
      | some function => if function.kind = .identifier then resolve function.text else pure none
      | none => pure none
    let (contexts, moreContexts) ← contextsOf contextNode
    let location ← attempt (Location.make (← file) element.start.line element.start.column)
    let setting : ElementSetting :=
      { namespaceName, binding, explicit, location, contexts, moreContexts, options, hasCount
        defaultText := defaults <|> (if Text.isBlankText content then none else some content)
        ordinal := Table.has "ordinal" attributes }
    keys.forM (reportElementKey setting)

/-- Adds the keys of an element, if its content is translated. A failure inside it is reported and does not end
the search. -/
def reportElement (element : Node) : Search Unit := do
  if isTranslated (← extraction).components element then
    try reportTranslated element
    catch failure =>
      let place := ":" ++ toString element.start.line ++ ":" ++ toString element.start.column
      warn ("Failed to extract <Trans> at " ++ (← file) ++ place ++ ": " ++ failure.message)

end Search

end Phrasebook
