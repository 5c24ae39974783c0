import Phrasebook.Decimal.Shortest
import Phrasebook.Syntax.Escape
import Phrasebook.Syntax.Node
import Phrasebook.Table

/-! The values literals stand for, the parts of templates, the properties of objects and the names of member
accesses. A literal whose escapes name no character makes the whole reading fail. -/

namespace Phrasebook.Syntax

open Decimal

inductive Literal where
  | text (value : String)
  | truth (value : Bool)
  | null
  | whole (value : Int)
  | real (value : Binary64)
deriving DecidableEq, Repr, Inhabited

namespace Node

def isWrapper (node : Node) : Bool := node.kind == .parenthesizedExpression || node.kind == .nonNullExpression

/-- The expression inside parentheses and assertions that it is there. -/
def unwrap (node : Node) : Option Node :=
  if node.isWrapper then
    match inside : node.parts with
    | [] => none
    | inner :: _ =>
      have : inner.size < node.size := size_lt_of_mem_parts (by simp [inside])
      inner.unwrap
  else some node
termination_by node.size

theorem unwrap_eq {node : Node} (bare : node.isWrapper = false) : node.unwrap = some node := by
  rw [unwrap, bare]
  rfl

theorem size_le_of_unwrap {node inner : Node} (found : node.unwrap = some inner) : inner.size ≤ node.size := by
  fun_induction unwrap node with
  | case1 => cases found
  | case2 node _ child _ _ smaller ih => exact Nat.le_trans (ih found) (Nat.le_of_lt smaller)
  | case3 => cases found; exact Nat.le_refl _

def isPlainTemplate (node : Node) : Bool :=
  node.kind == .templateString && node.children.all fun child => child.kind != .templateSubstitution

def quoted (node : Node) : String := String.ofList (node.text.toList.drop 1).dropLast

def stringValue? (node : Node) : Except Failure (Option String) := do
  match node.unwrap with
  | none => pure none
  | some inner =>
    if inner.kind = .stringLiteral || inner.isPlainTemplate then
      pure (some (← decodeEscapes inner.quoted))
    else pure none

def isHole (node : Node) : Bool := node.kind == .templateSubstitution || node.kind == .templateType

/-- The source texts between the holes of a template, one more than there are holes. -/
def fixedTexts (start : String) : List Node → List String
  | [] => [start]
  | child :: rest =>
    if child.isHole then start :: fixedTexts "" rest else fixedTexts (start ++ child.text) rest

def holes (node : Node) : List Node :=
  (node.children.filter isHole).filterMap fun hole => hole.parts.head?

def templateTexts (node : Node) : Except Failure (List String) := (fixedTexts "" node.children).mapM decodeEscapes

theorem size_lt_of_mem_holes {node inner : Node} (member : inner ∈ node.holes) : inner.size < node.size := by
  simp only [holes, List.mem_filterMap, List.mem_filter] at member
  obtain ⟨hole, ⟨inside, _⟩, first⟩ := member
  have := size_lt_of_mem_children inside
  have := size_lt_of_mem_parts (List.mem_of_head? first)
  omega

def propertyName? (key : Node) : Except Failure (Option String) := do
  match key.kind with
  | .propertyIdentifier | .identifier | .shorthandPropertyIdentifier | .shorthandPropertyIdentifierPattern
  | .numberLiteral | .privatePropertyIdentifier => pure (some key.text)
  | .stringLiteral => key.stringValue?
  | .computedPropertyName =>
    match key.parts with
    | [] => pure none
    | name :: _ => name.stringValue?
  | _ => pure none

/-- The name and the value of a member of an object; methods and spreads have none. A name by itself is its own
value. -/
def property? (member : Node) : Except Failure (Option (String × Node)) := do
  match member.kind with
  | .pair =>
    let name ← match member.child? .key with
      | some key => key.propertyName?
      | none => pure none
    match name, member.child? .value with
    | some name, some value => pure (some (name, value))
    | _, _ => pure none
  | .shorthandPropertyIdentifier => pure (some (member.text, member))
  | _ => pure none

def properties (object : Node) : Except Failure (List (String × Node)) := do
  pure ((← object.parts.mapM property?).filterMap id)

/-- The names and values of the members of an expression that is an object, none for any other. -/
def objectProperties (node : Node) : Except Failure (List (String × Node)) := do
  match node.unwrap with
  | some inner => if inner.kind = .object then inner.properties else pure []
  | none => pure []

def property (node : Node) (name : String) : Except Failure (Option Node) := do
  pure (Table.find? name (← node.objectProperties))

end Node

/-- The value of a whole number's source text, with its base in front of it. -/
def readWhole? (cs : List Char) : Option Int :=
  let based (base : Nat) (digits : List Char) : Option Int :=
    if digits.isEmpty || !digits.all isHexDigit then none
    else if digits.any fun c => base ≤ hexValue [c] then none
    else some (digits.foldl (fun value c => base * value + hexValue [c]) 0 : Nat)
  match cs with
  | '0' :: 'x' :: digits | '0' :: 'X' :: digits => based 16 digits
  | '0' :: 'o' :: digits | '0' :: 'O' :: digits => based 8 digits
  | '0' :: 'b' :: digits | '0' :: 'B' :: digits => based 2 digits
  | '0' :: digits => if digits.all (· = '0') then some 0 else none
  | digits => if 4300 < digits.length then none else based 10 digits

def readReal? (cs : List Char) : Option Binary64 :=
  let whole := cs.takeWhile Char.isDigit
  let behind := cs.drop whole.length
  let fraction := if behind.head? == some '.' then (behind.drop 1).takeWhile Char.isDigit else []
  let behind := if behind.head? == some '.' then behind.drop (1 + fraction.length) else behind
  let digits := hexlessValue (whole ++ fraction)
  let shift : Int := -(fraction.length : Int)
  match behind with
  | [] => some (Binary64.ofDecimal false digits shift)
  | mark :: power =>
    if mark = 'e' || mark = 'E' then
      let (negative, size) :=
        match power with
        | '-' :: size => (true, size)
        | '+' :: size => (false, size)
        | size => (false, size)
      if size.isEmpty || !size.all Char.isDigit then none
      else
        let value : Int := hexlessValue size
        some (Binary64.ofDecimal false digits ((if negative then -value else value) + shift))
    else none
where
  hexlessValue (digits : List Char) : Nat := digits.foldl (fun value c => 10 * value + (c.toNat - 48)) 0

/-- The value of a number literal, if it has one: big integers and numbers with superfluous zeros have none. -/
def readNumber? (text : String) : Option Literal :=
  let cs := text.toList.filter (· ≠ '_')
  let isHex := match cs with
    | '0' :: 'x' :: _ | '0' :: 'X' :: _ => true
    | _ => false
  if !isHex && cs.any fun c => c = '.' || c = 'e' || c = 'E' then (readReal? cs).map .real
  else (readWhole? cs).map .whole

namespace Literal

/-- The text a script makes of a literal: whole numbers have no point, whatever their notation. -/
def render : Literal → String
  | .text value => value
  | .truth value => if value then "true" else "false"
  | .null => "null"
  | .whole value => toString value
  | .real value =>
    match value.toInt? with
    | some integer => toString integer
    | none =>
      match value with
      | .infinite negative => if negative then "-inf" else "inf"
      | .undefined => "nan"
      | value => value.text

end Literal

namespace Node

def literal? (node : Node) : Except Failure (Option Literal) := do
  match node.unwrap with
  | none => pure none
  | some inner =>
    match ← inner.stringValue? with
    | some value => pure (some (.text value))
    | none =>
      match inner.kind with
      | .trueLiteral => pure (some (.truth true))
      | .falseLiteral => pure (some (.truth false))
      | .nullLiteral => pure (some .null)
      | .numberLiteral => pure (readNumber? inner.text)
      | _ => pure none

def propertyLiteral? (node : Node) (name : String) : Except Failure (Option Literal) := do
  match ← node.property name with
  | some value => value.literal?
  | none => pure none

def memberChain? (node : Node) : Option String :=
  match unwrapped : node.unwrap with
  | none => none
  | some inner =>
    match inner.kind with
    | .identifier | .thisExpression => some inner.text
    | .memberExpression =>
      match inner.child? .property with
      | none => none
      | some name =>
        if name.kind = .propertyIdentifier || name.kind = .privatePropertyIdentifier then
          match held : inner.child? .object with
          | none => none
          | some base =>
            have : base.size < node.size :=
              Nat.lt_of_lt_of_le (size_lt_of_child? held) (size_le_of_unwrap unwrapped)
            base.memberChain?.map fun chain => chain ++ "." ++ name.text
        else none
    | _ => none
termination_by node.size

def callArguments (call : Node) : List Node :=
  match call.child? .arguments with
  | some given => given.parts
  | none => []

end Node

end Phrasebook.Syntax
