import Phrasebook.Decimal.Shortest
import Phrasebook.Table

/-! The values catalogs are made of, and their text. Objects keep their entries in order. -/

namespace Phrasebook.Catalog

open Decimal

inductive Value where
  | null
  | truth (value : Bool)
  | whole (value : Int)
  | real (value : Binary64)
  | text (value : String)
  | list (items : List Value)
  | object (entries : List (String × Value))
deriving Repr, Inhabited

/-- The content of a catalog: an object's entries. -/
abbrev Entries := List (String × Value)

namespace Value

/-- Induction over values: what holds of all items of a list holds of the list, and the same for objects. -/
@[elab_as_elim]
theorem induction {motive : Value → Prop} (null : motive .null) (truth : ∀ value, motive (.truth value))
    (whole : ∀ value, motive (.whole value)) (real : ∀ value, motive (.real value))
    (text : ∀ value, motive (.text value)) (list : ∀ items, (∀ item ∈ items, motive item) → motive (.list items))
    (object : ∀ entries, (∀ entry ∈ entries, motive entry.2) → motive (.object entries)) (value : Value) :
    motive value := by
  refine Value.rec (motive_2 := fun items => ∀ item ∈ items, motive item)
    (motive_3 := fun entries => ∀ entry ∈ entries, motive entry.2) (motive_4 := fun entry => motive entry.2)
    null truth whole real text list object (by simp) ?_ (by simp) ?_ (fun _ _ inside => inside) value
  all_goals
    intro entry rest first later other member
    rcases List.mem_cons.mp member with same | inside
    · exact same ▸ first
    · exact later other inside

def isObject : Value → Bool
  | .object _ => true
  | _ => false

/-- The entries of an object; other values have none. -/
def entries : Value → Entries
  | .object entries => entries
  | _ => []

def text? : Value → Option String
  | .text value => some value
  | _ => none

/-- How the parts of a value are laid out: on one line, or on lines indented by copies of a text. -/
inductive Layout where
  | oneLine
  | lines (indent : String)
deriving DecidableEq, Repr

/-- The escape of a character inside a quoted text, for the characters that need one. -/
def escape? (c : Char) : Option String :=
  match c with
  | '"' => some "\\\""
  | '\\' => some "\\\\"
  | '\n' => some "\\n"
  | '\r' => some "\\r"
  | '\t' => some "\\t"
  | c =>
    if c.toNat = 8 then some "\\b"
    else if c.toNat = 12 then some "\\f"
    else if c.toNat < 32 then
      let digit (n : Nat) : Char := Nat.digitChar n
      some ("\\u00" ++ String.ofList [digit (c.toNat / 16), digit (c.toNat % 16)])
    else none

def quote (text : String) : String :=
  "\"" ++ String.join (text.toList.map fun c => (escape? c).getD (String.singleton c)) ++ "\""

/-- What separates two items of a list or an object at a given depth. -/
def separator (layout : Layout) (depth : Nat) : String :=
  match layout with
  | .oneLine => ", "
  | .lines indent => ",\n" ++ String.join (List.replicate depth indent)

def margin (layout : Layout) (depth : Nat) : String :=
  match layout with
  | .oneLine => ""
  | .lines indent => "\n" ++ String.join (List.replicate depth indent)

mutual

/-- The text of a value whose items stand at a given depth. -/
def renderAt (layout : Layout) (depth : Nat) : Value → String
  | .null => "null"
  | .truth value => if value then "true" else "false"
  | .whole value => toString value
  | .real value => value.text
  | .text value => quote value
  | .list [] => "[]"
  | .list (first :: rest) =>
    "[" ++ margin layout (depth + 1) ++ renderAt layout (depth + 1) first ++ renderItems layout (depth + 1) rest ++
      margin layout depth ++ "]"
  | .object [] => "\x7b\x7d"
  | .object ((name, value) :: rest) =>
    "\x7b" ++ margin layout (depth + 1) ++ quote name ++ ": " ++ renderAt layout (depth + 1) value ++
      renderEntries layout (depth + 1) rest ++ margin layout depth ++ "\x7d"

def renderItems (layout : Layout) (depth : Nat) : List Value → String
  | [] => ""
  | item :: rest => separator layout depth ++ renderAt layout depth item ++ renderItems layout depth rest

def renderEntries (layout : Layout) (depth : Nat) : List (String × Value) → String
  | [] => ""
  | (name, value) :: rest =>
    separator layout depth ++ quote name ++ ": " ++ renderAt layout depth value ++ renderEntries layout depth rest

end

def render (layout : Layout) (value : Value) : String := renderAt layout 0 value

end Value

end Phrasebook.Catalog
