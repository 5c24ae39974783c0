import Phrasebook.Pattern.Star
import Phrasebook.Search.Call
import Phrasebook.Syntax.Source
import Phrasebook.Text.Word

/-! Hints in comments: calls such as `t('status.active')` tell keys that the script puts together when it runs. A
hint counts only if the text from the function's name to the closing parenthesis is a call by itself and its first
argument is a text. -/

namespace Phrasebook

open Syntax

/-- The length of a text up to behind the parenthesis that closes all those opened in it. Parentheses in quoted
texts do not count. -/
def callLength? (depth : Int) (quote : Option Char) : List Char → Option Nat
  | [] => none
  | c :: rest =>
    match quote with
    | some mark =>
      if c = '\\' then
        match rest with
        | [] => none
        | _ :: rest => (callLength? depth quote rest).map (· + 2)
      else (callLength? depth (if c = mark then none else some mark) rest).map (· + 1)
    | none =>
      if c = '"' || c = '\'' || c = '\x60' then (callLength? depth (some c) rest).map (· + 1)
      else if c = '(' then (callLength? (depth + 1) none rest).map (· + 1)
      else if c = ')' then
        if depth = 1 then some 1 else (callLength? (depth - 1) none rest).map (· + 1)
      else (callLength? depth none rest).map (· + 1)

def callEnd? (text : String) (place : Nat) : Option Nat :=
  (callLength? 0 none (text.toList.drop place)).map (place + ·)

inductive HintName where
  | exact (name : List Char)
  /-- Names joined by points that end as given. -/
  | member (ending : List Char)

namespace HintName

def ofFunction (function : String) : HintName :=
  match function.toList with
  | '*' :: '.' :: rest => .member ('.' :: rest)
  | name => .exact name

def isSpecial (c : Char) : Bool :=
  "()[]\x7b\x7d?*+-|^$\\.&~# \t\n\r".toList.contains c || c.toNat = 11 || c.toNat = 12

/-- How much there is to a name: the longer ones are tried first. Special characters count twice, and the free
part of a name counts for a fixed number. -/
def weight : HintName → Nat
  | .exact name => name.length + name.countP isSpecial
  | .member ending => 39 + ending.length + ending.countP isSpecial

end HintName

/-- The names that calls in hints can have, in the order in which they are tried. -/
def hintNames (functions : List String) : List HintName :=
  if functions = [""] then []
  else (functions.map HintName.ofFunction).mergeSort fun first second => second.weight ≤ first.weight

def continuesName (c : Char) : Bool := Text.isWord c || c = '$'

def startsName (c : Char) : Bool := c.isAlpha || c = '_' || c = '$'

def openingLength? : List Char → Option Nat
  | [] => none
  | c :: rest =>
    if c = '(' then some 1 else if Text.isBlank c then (openingLength? rest).map (· + 1) else none

/-- The length of the start of a call of a member at the start of a text: names joined by points, an ending, blanks
and an opening parenthesis. The names take as many characters as possible. `inName` tells whether the last character
was a part of a name. -/
def memberStart? (ending : List Char) (inName : Bool) : List Char → Option Nat
  | [] => none
  | c :: rest =>
    if inName then
      let further : Option Nat :=
        if continuesName c then memberStart? ending true rest
        else if c = '.' then memberStart? ending false rest
        else none
      let here := (Text.after? ending (c :: rest)).bind openingLength?
      further.map (· + 1) <|> here.map (ending.length + ·)
    else if startsName c then (memberStart? ending true rest).map (· + 1)
    else none

/-- The length of the start of a call at the start of a text: a name, blanks, and an opening parenthesis. -/
def callStart? (text : List Char) (name : HintName) : Option Nat :=
  match name with
  | .exact name => ((Text.after? name text).bind openingLength?).map (name.length + ·)
  | .member ending => memberStart? ending false text

def hintCall? (text : List Char) : Option Node :=
  match (parse? .markup (String.ofList text)).map Node.parts with
  | some [statement] =>
    if statement.kind = .expressionStatement then
      match statement.parts.head? with
      | some call =>
        let isText : Bool :=
          match (call.callArguments.head?).bind Node.unwrap with
          | some first => first.kind = .stringLiteral || first.kind = .templateString
          | none => false
        if call.kind = .callExpression && isText then some call else none
      | none => none
    else none
  | _ => none

/-- The calls in a comment and the places where they start, behind so many characters to skip. A call does not
start inside a name or behind a point. -/
def hintsFrom (names : List HintName) (previous : Option Char) (place : Nat) : (skip : Nat) → List Char →
    List (Nat × Node)
  | _, [] => []
  | skip + 1, c :: rest => hintsFrom names (some c) (place + 1) skip rest
  | 0, c :: rest =>
    let isInside := previous.any fun before => continuesName before || before = '.'
    match if isInside then none else names.findSome? (callStart? (c :: rest)) with
    | none => hintsFrom names (some c) (place + 1) 0 rest
    | some start =>
      let found : Option (Nat × Node) := do
        let inner ← callLength? 0 none ((c :: rest).drop (start - 1))
        let length := start - 1 + inner
        pure (length, ← hintCall? ((c :: rest).take length))
      match found with
      | some (length, call) => (place, call) :: hintsFrom names (some c) (place + 1) (length - 1) rest
      | none => hintsFrom names (some c) (place + 1) (start - 1) rest

def hints (functions : List String) (text : String) : List (Nat × Node) :=
  hintsFrom (hintNames functions) none 0 0 text.toList

/-- The line and the column of a place in a comment. On the comment's first line columns go on from its own; they
count characters. -/
def hintPlace (comment : Node) (place : Nat) : Nat × Nat :=
  let before := comment.text.toList.take place
  let breaks := before.count '\n'
  if breaks = 0 then (comment.start.line, comment.start.column + before.length)
  else (comment.start.line + breaks, (before.reverse.takeWhile (· ≠ '\n')).length)

namespace Search

/-- Adds the keys of the hints in a comment, but for those that are kept anyway. -/
def reportHints (comment : Node) : Search Unit := do
  let extraction ← extraction
  if extraction.readComments then
    (hints extraction.functions comment.text).forM fun (place, call) =>
      reportCall call (some (Pattern.coversKey extraction.preservePatterns)) (some (hintPlace comment place))

end Search

end Phrasebook
