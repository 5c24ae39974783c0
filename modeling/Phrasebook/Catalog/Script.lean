import Phrasebook.Catalog.Value
import Phrasebook.Syntax.Literal
import Phrasebook.Syntax.Source

/-! Catalogs in scripts. The catalog is the outermost object in a script, and of several such the first; members
that are no literals are passed over. -/

namespace Phrasebook.Catalog

open Syntax

/-- The first object among nodes and, level by level, the nodes below them. The first argument bounds the number
of levels. -/
def firstObject? : (levels : Nat) → List Node → Option Node
  | 0, _ => none
  | levels + 1, nodes =>
    match nodes.find? fun node => node.kind = .object with
    | some object => some object
    | none => if nodes.isEmpty then none else firstObject? levels (nodes.flatMap Node.parts)

namespace Value

def ofLiteral : Literal → Value
  | .text value => .text value
  | .truth value => .truth value
  | .null => .null
  | .whole value => .whole value
  | .real value => .real value

def negated? : Literal → Option Value
  | .whole value => some (.whole (-value))
  | .real value => some (.real value.neg)
  | _ => none

mutual

def ofNode? (expression : Node) : Except Failure (Option Value) := do
  match unwrapped : expression.unwrap with
  | none => pure none
  | some node =>
    have within : node.size ≤ expression.size := Node.size_le_of_unwrap unwrapped
    match node.kind with
    | .asExpression | .satisfiesExpression =>
      match held : node.parts with
      | [] => pure none
      | value :: _ =>
        have : value.size < expression.size :=
          Nat.lt_of_lt_of_le (Node.size_lt_of_mem_parts (by simp [held])) within
        ofNode? value
    | .object => pure (some (.object (← entriesOf node)))
    | .array => do
      let items ← node.parts.attach.mapM fun ⟨item, inside⟩ =>
        have : item.size < expression.size := Nat.lt_of_lt_of_le (Node.size_lt_of_mem_parts inside) within
        ofNode? item
      pure (some (.list (items.filterMap id)))
    | .unaryExpression =>
      if node.text.toList.head? == some '-' then
        match node.parts with
        | [] => pure none
        | operand :: _ => pure ((← operand.literal?).bind negated?)
      else pure ((← node.literal?).map ofLiteral)
    | _ => pure ((← node.literal?).map ofLiteral)
termination_by (expression.size, 1)
decreasing_by
  · exact Prod.Lex.left _ _ this
  · rcases Nat.lt_or_eq_of_le within with smaller | same
    · exact Prod.Lex.left _ _ smaller
    · rw [same]; exact Prod.Lex.right _ (by omega)
  · exact Prod.Lex.left _ _ this

/-- The entries of an object of literals. A name that comes again takes its last value. -/
def entriesOf (object : Node) : Except Failure Entries := do
  let members ← object.parts.attach.mapM fun ⟨member, inside⟩ => do
    if member.kind = .pair then
      let name ← match member.child? .key with
        | some key => key.propertyName?
        | none => pure none
      match name, held : member.child? .value with
      | some name, some value =>
        have : value.size < object.size :=
          Nat.lt_trans (Node.size_lt_of_child? held) (Node.size_lt_of_mem_parts inside)
        pure ((← ofNode? value).map fun value => (name, value))
      | _, _ => pure none
    else pure none
  pure (Table.ofList (members.filterMap id))
termination_by (object.size, 0)
decreasing_by exact Prod.Lex.left _ _ this

end

end Value

def readScript (path text : String) : Except Failure Value := do
  match parse? (Dialect.ofPath path) text with
  | none => .error (.unparsed path)
  | some root =>
    match firstObject? root.size [root] with
    | none => .error (.invalid "no object literal found")
    | some object => pure (.object (← Value.entriesOf object))

end Phrasebook.Catalog
