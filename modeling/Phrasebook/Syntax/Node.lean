import Phrasebook.Syntax.Kind

/-! Syntax trees of scripts. A node carries its kind, the role it plays in the node above it, the exact text
it covers, where that text starts, and the nodes below it in source order, comments included. -/

namespace Phrasebook.Syntax

/-- A place in a source text: the characters before it, its line (the first is 1), and the UTF-8 bytes before
it on that line. -/
structure Position where
  offset : Nat
  line : Nat
  column : Nat
deriving DecidableEq, Repr, Inhabited

namespace Position

def first : Position := ⟨0, 1, 0⟩

/-- The place behind one more character. Only a line feed ends a line. -/
def advance (place : Position) (c : Char) : Position :=
  if c = '\n' then ⟨place.offset + 1, place.line + 1, 0⟩
  else ⟨place.offset + 1, place.line, place.column + c.utf8Size⟩

end Position

structure Node where
  kind : Kind
  role : Option Role
  text : String
  start : Position
  children : List Node
deriving Repr, Inhabited

namespace Node

def size : Node → Nat
  | ⟨_, _, _, _, children⟩ => 1 + sizeAll children
where
  sizeAll : List Node → Nat
    | [] => 0
    | child :: rest => child.size + sizeAll rest

def finish (node : Node) : Nat := node.start.offset + node.text.length

def as (node : Node) (role : Role) : Node := { node with role := some role }

def parts (node : Node) : List Node :=
  node.children.filter fun child => child.kind ≠ .comment ∧ child.kind ≠ .operator

/-- The nodes below a node that count as named, comments included. -/
def named (node : Node) : List Node := node.children.filter fun child => child.kind ≠ .operator

def child? (node : Node) (role : Role) : Option Node := node.children.find? fun child => child.role = some role

def slice (node : Node) (fromOffset toOffset : Nat) : String :=
  String.ofList ((node.text.toList.drop (fromOffset - node.start.offset)).take (toOffset - fromOffset))

theorem size_lt_of_mem_children {node child : Node} (member : child ∈ node.children) :
    child.size < node.size := by
  cases node with
  | mk kind role text start children =>
    simp only [size]
    have bound : child.size ≤ size.sizeAll children := by
      induction children with
      | nil => cases member
      | cons head tail ih =>
        simp only [size.sizeAll]
        cases member with
        | head => omega
        | tail _ inside => have := ih inside; omega
    omega

theorem size_lt_of_mem_parts {node child : Node} (member : child ∈ node.parts) : child.size < node.size :=
  size_lt_of_mem_children (List.mem_filter.mp member).1

theorem size_lt_of_child? {node child : Node} {role : Role} (found : node.child? role = some child) :
    child.size < node.size :=
  size_lt_of_mem_children (List.mem_of_find?_eq_some found)

end Node

end Phrasebook.Syntax
