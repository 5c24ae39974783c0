import Phrasebook.Syntax.Grammar.Statement

/-! Reading whole scripts. A text with an error anywhere has no tree at all. -/

namespace Phrasebook.Syntax

mutual

/-- Whether no object holds a name with a default value, which only patterns may. -/
def Node.isSettled : Node → Bool
  | ⟨kind, _, _, _, children⟩ => allSettled (kind == .object) children

/-- Whether this holds for all nodes of a list, which may be the members of an object. -/
def allSettled (inObject : Bool) : List Node → Bool
  | [] => true
  | child :: rest =>
    !(inObject && child.kind == .objectAssignmentPattern) && child.isSettled && allSettled inObject rest

end

def parse? (dialect : Dialect) (text : String) : Option Node :=
  let cs := text.toList
  let limit := cs.length + 1
  match (Parse.program (8 * limit + 64)).run ⟨dialect, limit, ⟨cs, .first⟩, [], true⟩ with
  | some (root, _) => if root.isSettled then some root else none
  | none => none

def fileName (path : String) : List Char := (path.toList.reverse.takeWhile (· ≠ '/')).reverse

/-- The extension of a path with its point; points at the start of a name do not start an extension. -/
def extension (path : String) : List Char :=
  let name := (fileName path).dropWhile (· = '.')
  if name.contains '.' then '.' :: (name.reverse.takeWhile (· ≠ '.')).reverse else []

/-- Scripts with the extensions of plain typed scripts have casts, all others have markup. -/
def Dialect.ofPath (path : String) : Dialect :=
  if [".ts", ".mts", ".cts"].contains (String.ofList ((extension path).map Char.toLower)) then .typed else .markup

end Phrasebook.Syntax
