import Phrasebook.Scope.Binding
import Phrasebook.Table
import Phrasebook.Text.Split

/-! Scopes within scopes. A scope maps names to bindings; a name mapped to nothing is declared there without
one, and hides a binding further out. -/

namespace Phrasebook

abbrev Scope := List (String × Option Binding)

abbrev ScopeStack := List Scope

namespace ScopeStack

/-- The binding of a name: the innermost scope that knows the name decides. -/
def resolve (name : String) : ScopeStack → Option Binding
  | [] => none
  | scope :: outer =>
    match Table.find? name scope with
    | some binding => binding
    | none => resolve name outer

/-- Binds a name in the innermost scope; without any scope one is opened. -/
def set (name : String) (binding : Option Binding) : ScopeStack → ScopeStack
  | [] => [[(name, binding)]]
  | scope :: outer => Table.put name binding scope :: outer

end ScopeStack

/-- What the declarations so far tell: the bindings in scope, and the texts of plain constants by name. -/
structure Scopes where
  stack : ScopeStack := []
  texts : List (String × String) := []
deriving DecidableEq, Repr, Inhabited

namespace Scopes

/-- The binding of a name in the scopes around the present place. -/
def resolve (scopes : Scopes) (name : String) : Option Binding := scopes.stack.resolve name

/-- Binds a name in the innermost scope. -/
def set (scopes : Scopes) (name : String) (binding : Option Binding) : Scopes :=
  { scopes with stack := scopes.stack.set name binding }

def enter (scopes : Scopes) (scope : Scope) : Scopes := { scopes with stack := scope :: scopes.stack }

def exit (scopes : Scopes) : Scopes := { scopes with stack := scopes.stack.tail }

end Scopes

/-- Whether the name of a called function is one of the configured ones; a pattern that starts with `*.` stands
for all members of a name. -/
def matchesFunction (functions : List String) (name : String) : Bool :=
  functions.any fun pattern =>
    match Text.dropStart? "*" pattern with
    | some member => if Text.startsWith "." member then Text.endsWith member name else pattern == name
    | none => pattern == name

end Phrasebook
