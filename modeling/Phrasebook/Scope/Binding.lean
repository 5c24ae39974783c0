import Phrasebook.Failure

/-! What a variable tells about the keys of calls through it: the namespaces they are looked up in, and the text
in front of them. -/

namespace Phrasebook

/-- One namespace, or several of which the first receives new keys. -/
inductive Namespaces where
  | one (name : String)
  | several (names : List String)
deriving DecidableEq, Repr, Inhabited

/-- How a variable came to be a translation function: through a hook or as another function's alias. -/
inductive AliasKind where
  | hook | function
deriving DecidableEq, Repr, Inhabited

namespace AliasKind

def name : AliasKind → String
  | .hook => "hook"
  | .function => "function"

def ofName (name : String) : Except Failure AliasKind :=
  if name = "hook" then .ok .hook
  else if name = "function" then .ok .function
  else .error (.invalid "Alias kind must be 'function' or 'hook'")

end AliasKind

structure Binding where
  namespaces : Option Namespaces := none
  keyPrefix : Option String := none
  aliasName : Option String := none
  aliasKind : AliasKind := .hook
deriving DecidableEq, Repr, Inhabited

namespace Binding

def defaultNamespace (binding : Binding) : Option String :=
  match binding.namespaces with
  | some (.one name) => some name
  | some (.several names) => names.head?
  | none => none

def mergedWith (binding other : Binding) : Binding where
  namespaces := other.namespaces <|> binding.namespaces
  keyPrefix := other.keyPrefix <|> binding.keyPrefix
  aliasName := other.aliasName.filter (· ≠ "") <|> binding.aliasName
  aliasKind := other.aliasKind

end Binding

end Phrasebook
