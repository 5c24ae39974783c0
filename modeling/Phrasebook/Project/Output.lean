import Phrasebook.Journal
import Phrasebook.Settings.Basic

/-! Where the catalog of a locale and a namespace is kept. -/

namespace Phrasebook

open Catalog

structure FoundPath where
  path : String
  message : Option Message := none
deriving DecidableEq, Repr, Inhabited

def valueText : Value → String
  | .null => "None"
  | .truth value => if value then "True" else "False"
  | .whole value => toString value
  | .real value => value.text
  | .text value => value
  | value => value.render .oneLine

def isEmptyValue : Value → Bool
  | .null | .truth false | .text "" | .list [] | .object [] => true
  | .whole value => value = 0
  | .real value => value.toInt? = some 0
  | _ => false

/-- Where catalogs are kept when nothing better is known. -/
def defaultPath (locale : String) (namespaceName : Option String) : String :=
  match namespaceName with
  | none => "locales/" ++ locale ++ ".json"
  | some name => "locales/" ++ locale ++ "/" ++ name ++ ".json"

def namespacePlaces : List (List Char) := ["\x7b\x7bnamespace\x7d\x7d".toList, "\x7b\x7bns\x7d\x7d".toList]

/-- The characters behind a place for a namespace and the slash that may stand before it. -/
def afterNamespacePlace? (text : List Char) : Option (List Char) :=
  let behind (text : List Char) : Option (List Char) := namespacePlaces.findSome? fun place => Text.after? place text
  match text with
  | '/' :: rest | '\\' :: rest => behind rest
  | text => behind text

/-- A template without its places for a namespace, behind so many characters to skip. -/
def withoutNamespacePlaces : (skip : Nat) → List Char → List Char
  | _, [] => []
  | skip + 1, _ :: rest => withoutNamespacePlaces skip rest
  | 0, c :: rest =>
    match afterNamespacePlace? (c :: rest) with
    | some behind => withoutNamespacePlaces (rest.length - behind.length) rest
    | none => c :: withoutNamespacePlaces 0 rest

def fillPath (locale namespaceName template : String) : String :=
  Text.replace "\x7b\x7bns\x7d\x7d" namespaceName
    (Text.replace "\x7b\x7bnamespace\x7d\x7d" namespaceName
      (Text.replace "\x7b\x7blng\x7d\x7d" locale (Text.replace "\x7b\x7blanguage\x7d\x7d" locale template)))

namespace OutputPath

def separatesNamespaces : OutputPath → Bool
  | .template text => Text.contains "\x7b\x7bnamespace\x7d\x7d" text || Text.contains "\x7b\x7bns\x7d\x7d" text
  | .function _ => true

def functionPath (does : PathFunction) (locale : String) (namespaceName : Option String) : Except String String := do
  let value ← does locale namespaceName
  if isEmptyValue value then .error "output function returned an empty path" else pure (valueText value)

/-- Where the catalog of a locale and a namespace is kept. The catalog of all namespaces is found by leaving out
the places for one; where a function gives no path, the default place serves. -/
def find (output : OutputPath) (locale : String) (namespaceName : Option String) : FoundPath :=
  match output with
  | .template text =>
    match namespaceName with
    | some name => { path := fillPath locale name text }
    | none => { path := fillPath locale "" (String.ofList (withoutNamespacePlaces 0 text.toList)) }
  | .function does =>
    match functionPath does locale namespaceName with
    | .ok path => { path }
    | .error reason =>
      let path := defaultPath locale namespaceName
      { path
        message := some ⟨.warning, "Output path function failed for " ++ locale ++ "/" ++
          namespaceName.getD "None" ++ ": " ++ reason ++ ", using " ++ path⟩ }

end OutputPath

end Phrasebook
