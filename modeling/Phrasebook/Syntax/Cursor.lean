import Phrasebook.Syntax.Node

/-! The characters of a script: which of them separate tokens, which make words, and how the longest word,
sign, number or comment at a place is cut off. -/

namespace Phrasebook.Syntax

def isSeparator (c : Char) : Bool :=
  let n := c.toNat
  (9 ≤ n && n ≤ 13) || n == 0x20 || n == 0xA0 || n == 0x1680 || (0x2000 ≤ n && n ≤ 0x200B) || n == 0x2028 ||
    n == 0x2029 || n == 0x202F || n == 0x205F || n == 0x2060 || n == 0x3000 || n == 0xFEFF

/-- Characters that may stand inside a word; all but digits may also start one. -/
def isWordChar (c : Char) : Bool :=
  31 < c.toNat && !isSeparator c && !":;`\"'@#.,|^&<=>+-*/\\%?!~()[]\x7b\x7d".toList.contains c

def isHexDigit (c : Char) : Bool := c.isDigit || ('a' ≤ c && c ≤ 'f') || ('A' ≤ c && c ≤ 'F')

structure Cursor where
  rest : List Char
  place : Position
deriving Inhabited

namespace Cursor

def ofText (text : String) : Cursor := ⟨text.toList, .first⟩

def skip (cursor : Cursor) : Nat → Cursor
  | 0 => cursor
  | count + 1 =>
    match cursor.rest with
    | [] => cursor
    | c :: rest => skip ⟨rest, cursor.place.advance c⟩ count

def textUpTo (cursor later : Cursor) : String :=
  String.ofList (cursor.rest.take (later.place.offset - cursor.place.offset))

def node (cursor : Cursor) (kind : Kind) (later : Cursor) (children : List Node) : Node :=
  ⟨kind, none, cursor.textUpTo later, cursor.place, children⟩

end Cursor

def lineLength (cs : List Char) : Nat :=
  (cs.takeWhile fun c => c ≠ '\n' ∧ c ≠ '\r' ∧ c.toNat ≠ 0x2028 ∧ c.toNat ≠ 0x2029).length

/-- The length of a block comment's text behind its opening, up to and with the closing sign. -/
def blockLength? : List Char → Option Nat
  | '*' :: '/' :: _ => some 2
  | _ :: rest => (blockLength? rest).map (· + 1)
  | [] => none

/-- The length of the comment at the start of a text, if one stands there and is closed. -/
def commentLength? : List Char → Option Nat
  | '/' :: '/' :: rest => some (2 + lineLength rest)
  | '/' :: '*' :: rest => (blockLength? rest).map (· + 2)
  | _ => none

/-- The length of a comment as markup has them, from either of its signs to the end of the line. -/
def markupCommentLength? (cs : List Char) : Option Nat :=
  if "<!--".toList.isPrefixOf cs || "-->".toList.isPrefixOf cs then
    some (cs.takeWhile fun c => c ≠ '\n' ∧ c.toNat ≠ 0x2028 ∧ c.toNat ≠ 0x2029).length
  else none

/-- The kind and the length of the comment at the start of a text. Those of markup count only where `fresh` tells
that no operator could stand there. -/
def commentAt? (fresh : Bool) (cs : List Char) : Option (Kind × Nat) :=
  match commentLength? cs with
  | some length => some (.comment, length)
  | none => if fresh then (markupCommentLength? cs).map fun length => (.htmlComment, length) else none

/-- Moves a cursor over separators and comments and collects the comments, the newest first. The second argument
bounds the number of steps. -/
def Cursor.skipTrivia (fresh : Bool) : Nat → Cursor → List Node → Cursor × List Node
  | 0, cursor, found => (cursor, found)
  | steps + 1, cursor, found =>
    match cursor.rest with
    | [] => (cursor, found)
    | c :: rest =>
      if isSeparator c then skipTrivia fresh steps ⟨rest, cursor.place.advance c⟩ found
      else
        match commentAt? fresh (c :: rest) with
        | none => (cursor, found)
        | some (kind, length) =>
          let later := cursor.skip length
          skipTrivia fresh steps later (cursor.node kind later [] :: found)

/-- The length of an escape `\uXXXX` or `\u{X…}` inside a word. -/
def wordEscapeLength? : List Char → Option Nat
  | '\\' :: 'u' :: '\x7b' :: rest =>
    let digits := rest.takeWhile isHexDigit
    if digits.length > 0 && (rest.drop digits.length).head? == some '\x7d' then some (digits.length + 4) else none
  | '\\' :: 'u' :: a :: b :: c :: d :: _ => if [a, b, c, d].all isHexDigit then some 6 else none
  | _ => none

def wordLength : Nat → List Char → Nat
  | 0, _ => 0
  | steps + 1, cs =>
    match cs with
    | [] => 0
    | c :: rest =>
      if isWordChar c then 1 + wordLength steps rest
      else
        match wordEscapeLength? cs with
        | none => 0
        | some length => length + wordLength steps (cs.drop length)

def word? (steps : Nat) (cs : List Char) : Option String :=
  match cs with
  | c :: _ =>
    if c.isDigit then none
    else
      let length := wordLength steps cs
      if length = 0 then none else some (String.ofList (cs.take length))
  | [] => none

def signs : List String :=
  [">>>=", "...", "===", "!==", "**=", "<<=", ">>=", ">>>", "&&=", "||=", "??=",
   "=>", "==", "!=", "<=", ">=", "&&", "||", "??", "?.", "++", "--", "**", "<<", ">>",
   "+=", "-=", "*=", "/=", "%=", "&=", "|=", "^=",
   "\x7b", "\x7d", "(", ")", "[", "]", ";", ",", "<", ">", "=", "+", "-", "*", "/", "%",
   "&", "|", "^", "!", "~", "?", ":", ".", "@", "#"]

/-- The longest sign at the start of a text. A question mark, a point and a digit make a condition with a
fraction behind it, not an optional access. -/
def sign? (cs : List Char) : Option String :=
  match cs with
  | '?' :: '.' :: c :: _ => if c.isDigit then some "?" else some "?."
  | _ => signs.find? fun sign => sign.toList.isPrefixOf cs

/-- The signs that can be the last ones of an operand or of a statement, or stand inside a literal. -/
def endingSigns : List String := [")", "]", "\x7d", ">", ">>", ">>>", "++", "--", "!", "/", "#"]

/-- Whether neither an operator nor the end of a statement can follow a token, as far as the token alone tells. -/
def leavesFresh (token : List Char) : Bool :=
  let text := String.ofList token
  signs.contains text && !endingSigns.contains text

/-- The length of a run of digits in which single underscores may stand between digits. -/
def digitRun (isDigit : Char → Bool) : List Char → Nat
  | [] => 0
  | c :: rest =>
    if isDigit c then 1 + digitRun isDigit rest
    else if c = '_' then
      match rest with
      | d :: _ => if isDigit d then 1 + digitRun isDigit rest else 0
      | [] => 0
    else 0

def digitsLength (isDigit : Char → Bool) (cs : List Char) : Nat :=
  match cs with
  | c :: _ => if isDigit c then digitRun isDigit cs else 0
  | [] => 0

def exponentLength : List Char → Nat
  | c :: rest =>
    if c = 'e' || c = 'E' then
      match rest with
      | s :: digits =>
        if s = '+' || s = '-' then
          let length := digitsLength Char.isDigit digits
          if length = 0 then 0 else 2 + length
        else
          let length := digitsLength Char.isDigit rest
          if length = 0 then 0 else 1 + length
      | [] => 0
    else 0
  | [] => 0

/-- Adds the mark of a big integer to a number's length when it follows. -/
def bigLength (cs : List Char) (length : Nat) : Nat :=
  if (cs.drop length).head? == some 'n' then length + 1 else length

/-- The length of the decimal number at the start of a text. A fraction or an exponent needs an integer part
without superfluous zeros. -/
def decimalLength (cs : List Char) : Nat :=
  let whole := digitsLength Char.isDigit cs
  if whole = 0 then
    match cs with
    | '.' :: rest =>
      let fraction := digitsLength Char.isDigit rest
      if fraction = 0 then 0 else 1 + fraction + exponentLength (rest.drop fraction)
    | _ => 0
  else
    let plain := whole = 1 || cs.head? != some '0' ||
      (match cs with | _ :: d :: _ => d != '0' && d != '_' | _ => false)
    let behind := cs.drop whole
    if plain && behind.head? == some '.' then
      let fraction := digitsLength Char.isDigit (behind.drop 1)
      whole + 1 + fraction + exponentLength (behind.drop (1 + fraction))
    else if plain && exponentLength behind > 0 then whole + exponentLength behind
    else bigLength cs whole

def numberLength (cs : List Char) : Nat :=
  let based (isDigit : Char → Bool) (rest : List Char) : Nat :=
    let length := digitsLength isDigit rest
    if length = 0 then bigLength cs 1 else bigLength cs (2 + length)
  match cs with
  | '0' :: 'x' :: rest | '0' :: 'X' :: rest => based isHexDigit rest
  | '0' :: 'b' :: rest | '0' :: 'B' :: rest => based (fun c => c = '0' || c = '1') rest
  | '0' :: 'o' :: rest | '0' :: 'O' :: rest => based (fun c => '0' ≤ c && c ≤ '7') rest
  | _ => decimalLength cs

end Phrasebook.Syntax
