import Phrasebook.Table
import Phrasebook.Text.Blank
import Phrasebook.Text.Split

/-! Files of environment variables: lines such as `export NAME="value" # comment`. A value can refer to other
variables as `$\x7bNAME\x7d`, with a value to use without one behind `:-`. Statements in error are passed over. -/

namespace Phrasebook

open Text

abbrev Environment := List (String × String)

namespace EnvironmentFile

def endsLine (c : Char) : Bool := c = '\n' || c = '\r'

/-- Whether a character is blank but ends no line. -/
def isSpace (c : Char) : Bool := isBlank c && !endsLine c

/-- A statement and what follows it. A statement without a name is a comment or in error. -/
structure Statement where
  name : Option String := none
  /-- The value, unless there is nothing but the name. -/
  value : Option String := none
deriving DecidableEq, Repr

/-- The characters in front of the closing quote of a quoted text, and those behind it. A backslash in front of a
quote makes it a part of the text, unless there is no other to close it. -/
def quoted? (quote : Char) (escaped : Bool) : List Char → Option (List Char × List Char)
  | [] => none
  | c :: rest =>
    let further := (quoted? quote (c = '\\') rest).map fun (inner, behind) => (c :: inner, behind)
    if c = quote then if escaped then further <|> some ([], rest) else some ([], rest) else further

def escapedChar (c : Char) : Char :=
  match c with
  | 'a' => '\x07'
  | 'b' => '\x08'
  | 'f' => '\x0c'
  | 'n' => '\n'
  | 'r' => '\r'
  | 't' => '\t'
  | 'v' => '\x0b'
  | c => c

/-- A quoted text with its escapes decoded. Only the given characters are escaped by a backslash. -/
def decode (escapable : List Char) : List Char → List Char
  | '\\' :: c :: rest =>
    if escapable.contains c then escapedChar c :: decode escapable rest else '\\' :: decode escapable (c :: rest)
  | c :: rest => c :: decode escapable rest
  | [] => []

/-- A value without quotes up to a comment, which is set off by blanks. -/
def plainValue : List Char → List Char
  | [] => []
  | c :: rest =>
    if isBlank c && (rest.dropWhile isBlank).head? == some '#' then [] else c :: plainValue rest

def value? (cs : List Char) : Option (String × List Char) :=
  match cs with
  | '\'' :: rest =>
    (quoted? '\'' false rest).map fun (inner, behind) => (String.ofList (decode ['\\', '\''] inner), behind)
  | '"' :: rest =>
    (quoted? '"' false rest).map fun (inner, behind) =>
      (String.ofList (decode ['\\', '\'', '"', 'a', 'b', 'f', 'n', 'r', 't', 'v'] inner), behind)
  | cs =>
    let line := cs.takeWhile fun c => !endsLine c
    some (String.ofList (trimEnd (plainValue line)), cs.drop line.length)

def name? (cs : List Char) : Option (Option String × List Char) :=
  match cs with
  | '#' :: _ => some (none, cs)
  | '\'' :: rest =>
    let inner := rest.takeWhile (· ≠ '\'')
    match inner, rest.drop inner.length with
    | _ :: _, _ :: behind => some (some (String.ofList inner), behind)
    | _, _ => none
  | cs =>
    let inner := cs.takeWhile fun c => c ≠ '=' && c ≠ '#' && !isBlank c
    if inner.isEmpty then none else some (some (String.ofList inner), cs.drop inner.length)

/-- What follows the end of a line, with a comment and blanks in front of it. -/
def lineEnd? (cs : List Char) : Option (List Char) :=
  let behind :=
    match cs.dropWhile isSpace with
    | '#' :: comment => comment.dropWhile fun c => !endsLine c
    | rest => rest
  match behind with
  | [] => some []
  | '\r' :: '\n' :: rest => some rest
  | c :: rest => if endsLine c then some rest else none

def restOfLines (cs : List Char) : List Char := (cs.dropWhile fun c => !endsLine c).drop 1

/-- The characters behind the word that exports a variable. -/
def afterExport (cs : List Char) : List Char :=
  match after? "export".toList cs with
  | some behind => if behind.head?.any isSpace then behind.dropWhile isSpace else cs
  | none => cs

/-- The first statement of a text that is not blank, and what follows it. A statement in error ends with the line
in which the error is. -/
def statement (cs : List Char) : Statement × List Char :=
  let start := afterExport cs
  match name? start with
  | none => ({}, restOfLines start)
  | some (name, behind) =>
    match behind.dropWhile isSpace with
    | '=' :: more =>
      let given := more.dropWhile isSpace
      match value? given with
      | none => ({}, restOfLines given)
      | some (value, behind) =>
        match lineEnd? behind with
        | some rest => ({ name, value := some value }, rest)
        | none => ({}, restOfLines behind)
    | behind =>
      match lineEnd? behind with
      | some rest => ({ name }, rest)
      | none => ({}, restOfLines behind)

def statements : (limit : Nat) → List Char → List Statement
  | 0, _ => []
  | limit + 1, cs =>
    match cs.dropWhile isBlank with
    | [] => []
    | start =>
      let (first, behind) := statement start
      first :: statements limit behind

/-- The characters in front of a reference to a variable, its name, the value to use without one, and what
follows. -/
def reference? : List Char → Option (List Char × String × Option String × List Char)
  | [] => none
  | c :: rest =>
    let here : Option (String × Option String × List Char) :=
      match c, rest with
      | '$', '\x7b' :: inside =>
        let name := inside.takeWhile fun c => c ≠ '\x7d' && c ≠ ':'
        match inside.drop name.length with
        | '\x7d' :: behind => some (String.ofList name, none, behind)
        | ':' :: '-' :: more =>
          let instead := more.takeWhile (· ≠ '\x7d')
          match more.drop instead.length with
          | _ :: behind => some (String.ofList name, some (String.ofList instead), behind)
          | [] => none
        | _ => none
      | _, _ => none
    match here with
    | some found => some ([], found)
    | none => (reference? rest).map fun (before, found) => (c :: before, found)

/-- A value with the variables it refers to filled in. The first argument bounds the number of references. -/
def fill (known : List (String × Option String)) : (limit : Nat) → List Char → String
  | 0, cs => String.ofList cs
  | limit + 1, cs =>
    match reference? cs with
    | none => String.ofList cs
    | some (before, name, instead, behind) =>
      let value :=
        match Table.find? name known with
        | some value => value.getD ""
        | none => instead.getD ""
      String.ofList before ++ value ++ fill known limit behind

def resolve (environment : Environment) (statements : List Statement) : List (String × Option String) :=
  statements.foldl (fun known statement =>
    match statement.name with
    | none => known
    | some name =>
      let value := statement.value.map fun value =>
        fill (known ++ environment.map fun (name, value) => (name, some value)) (value.length + 1) value.toList
      Table.put name value known) []

/-- The environment with the variables that a file sets; names without a value set nothing. -/
def extend (environment : Environment) (text : String) : Environment :=
  let cs := text.toList
  (resolve environment (statements (cs.length + 1) cs)).foldl (fun environment (name, value) =>
    match value with
    | some value => Table.put name value environment
    | none => environment) environment

end EnvironmentFile

end Phrasebook
