import Phrasebook.Syntax.Literal

/-! The texts an expression can stand for, as far as the script itself tells: literals, templates and sums of
such, conditions between them, types that list texts, and constants declared by one of these. -/

namespace Phrasebook

open Syntax

/-- What the declaration of a constant tells: the texts it can be, or the texts of its properties. -/
inductive Constant where
  | texts (values : List String)
  | record (fields : List (String × String))
deriving DecidableEq, Repr, Inhabited

abbrev Constants := List (String × Constant)

namespace Constants

def field (constants : Constants) (name property : String) : List String :=
  match Table.find? name constants with
  | some (.record fields) => (Table.find? property fields).toList
  | _ => []

def texts (constants : Constants) (name : String) : List String :=
  match Table.find? name constants with
  | some (.texts values) => values
  | _ => []

end Constants

/-- The texts of a template whose holes have given choices. -/
def fillTemplate (texts : List String) (choices : List (List String)) : List String :=
  match texts with
  | [] => []
  | first :: rest =>
    (choices.zip rest).foldl
      (fun heads (values, behind) => heads.flatMap fun head => values.map fun value => head ++ value ++ behind)
      [first]

/-- A text as the only choice; the empty text is none unless it is to be kept. -/
def onlyText (keepEmpty : Bool) (text : Option String) : List String :=
  match text with
  | some value => if keepEmpty || value ≠ "" then [value] else []
  | none => []

def typeTexts (keepEmpty : Bool) (type : Node) : Except Failure (List String) := do
  match type.kind with
  | .unionType => do
    let members ← type.parts.attach.mapM fun ⟨member, inside⟩ =>
      have : member.size < type.size := Node.size_lt_of_mem_parts inside
      typeTexts keepEmpty member
    pure members.flatten
  | .parenthesizedType =>
    match held : type.parts with
    | [] => pure []
    | inner :: _ =>
      have : inner.size < type.size := Node.size_lt_of_mem_parts (by simp [held])
      typeTexts keepEmpty inner
  | .literalType =>
    match type.parts with
    | [] => pure []
    | literal :: _ =>
      if literal.kind = .stringLiteral then pure (onlyText keepEmpty (← literal.stringValue?))
      else
        match ← literal.literal? with
        | none | some .null => pure []
        | some value => pure [value.render]
  | .templateLiteralType => do
    let texts ← type.templateTexts
    let choices ← type.holes.attach.mapM fun ⟨inner, inside⟩ =>
      have : inner.size < type.size := Node.size_lt_of_mem_holes inside
      typeTexts true inner
    pure (fillTemplate texts choices)
  | _ => pure []
termination_by type.size

/-- The texts that an expression can stand for; empty ones count only if they are to be kept. -/
def possibleTexts (constants : Constants) (keepEmpty : Bool) (expression : Node) :
    Except Failure (List String) := do
  match unwrapped : expression.unwrap with
  | none => pure []
  | some node =>
    have within : node.size ≤ expression.size := Node.size_le_of_unwrap unwrapped
    match node.kind with
    | .stringLiteral => pure (onlyText keepEmpty (← node.stringValue?))
    | .ternaryExpression => do
      let consequence ← match held : node.child? .consequence with
        | none => pure []
        | some branch =>
          have : branch.size < expression.size := Nat.lt_of_lt_of_le (Node.size_lt_of_child? held) within
          possibleTexts constants keepEmpty branch
      let alternative ← match held : node.child? .alternative with
        | none => pure []
        | some branch =>
          have : branch.size < expression.size := Nat.lt_of_lt_of_le (Node.size_lt_of_child? held) within
          possibleTexts constants keepEmpty branch
      pure (consequence ++ alternative)
    | .templateString => do
      let texts ← node.templateTexts
      let choices ← node.holes.attach.mapM fun ⟨inner, inside⟩ =>
        have : inner.size < expression.size := Nat.lt_of_lt_of_le (Node.size_lt_of_mem_holes inside) within
        possibleTexts constants true inner
      pure (fillTemplate texts choices)
    | .memberExpression =>
      match (node.child? .object).bind Node.unwrap, node.child? .property with
      | some object, some name =>
        if object.kind = .identifier then pure (constants.field object.text name.text) else pure []
      | _, _ => pure []
    | .subscriptExpression => do
      let index ← match node.child? .index with
        | some index => index.stringValue?
        | none => pure none
      match (node.child? .object).bind Node.unwrap, index with
      | some object, some name =>
        if object.kind = .identifier then pure (constants.field object.text name) else pure []
      | _, _ => pure []
    | .binaryExpression =>
      if (node.child? .operator).any fun sign => sign.text == "+" then do
        let left ← match held : node.child? .left with
          | none => pure []
          | some operand =>
            have : operand.size < expression.size := Nat.lt_of_lt_of_le (Node.size_lt_of_child? held) within
            possibleTexts constants keepEmpty operand
        let right ← match held : node.child? .right with
          | none => pure []
          | some operand =>
            have : operand.size < expression.size := Nat.lt_of_lt_of_le (Node.size_lt_of_child? held) within
            possibleTexts constants keepEmpty operand
        pure (left.flatMap fun l => right.map fun r => l ++ r)
      else pure []
    | .numberLiteral | .trueLiteral | .falseLiteral => do
      pure ((← node.literal?).map Literal.render).toList
    | .asExpression | .satisfiesExpression =>
      match held : node.parts with
      | value :: type :: _ => do
        let listed ← typeTexts keepEmpty type
        if listed.isEmpty then
          have : value.size < expression.size :=
            Nat.lt_of_lt_of_le (Node.size_lt_of_mem_parts (by simp [held])) within
          possibleTexts constants keepEmpty value
        else pure listed
      | _ => pure []
    | .identifier => pure (if node.text = "undefined" then [] else constants.texts node.text)
    | _ => pure []
termination_by expression.size

namespace Constants

/-- The constant that an expression defines: a record of the properties that have exactly one text, or the
texts the expression can be. -/
def constant? (constants : Constants) (value : Node) : Except Failure (Option Constant) := do
  let target :=
    if value.kind = .asExpression ∨ value.kind = .satisfiesExpression then
      match (value.parts.head?).bind Node.unwrap with
      | some inner => if inner.kind = .object then inner else value
      | none => value
    else value
  let fields ← if target.kind = .object then (do
      let properties ← target.properties
      let found ← properties.mapM fun (name, property) => do
        match ← possibleTexts constants false property with
        | [text] => pure (some (name, text))
        | _ => pure none
      pure (Table.ofList (found.filterMap id))) else pure []
  if fields.isEmpty then
    match ← possibleTexts constants false value with
    | [] => pure none
    | values => pure (some (.texts values))
  else pure (some (.record fields))

/-- The constants after a declarator. Only plain names with an initial value that tells something enter. -/
def declare (constants : Constants) (declarator : Node) : Except Failure Constants := do
  match declarator.child? .name, (declarator.child? .value).bind Node.unwrap with
  | some name, some value =>
    if name.kind = .identifier then
      match ← constants.constant? value with
      | some constant => pure (Table.put name.text constant constants)
      | none => pure constants
    else pure constants
  | _, _ => pure constants

end Constants

end Phrasebook
