import Phrasebook.Syntax.Parse

/-! Numbers, strings, templates and regular expressions. Their inside is read character by character: blanks
and comment signs have no meaning there. -/

namespace Phrasebook.Syntax.Parse

/-- A node over the next characters as they stand, blanks included. -/
def raw (kind : Kind) (length : Nat) : Parse Node := do
  let start := (← get).cursor
  take length
  finish kind start []

def rawSign (c : Char) : Parse Unit := do
  if (← get).cursor.rest.head? == some c then take 1 else failure

/-- The length of the escape at the start of a text, if it is a complete one. -/
def escapeLength? : List Char → Option Nat
  | '\\' :: 'x' :: a :: b :: _ => if isHexDigit a && isHexDigit b then some 4 else none
  | '\\' :: 'u' :: '\x7b' :: rest => wordEscapeLength? ('\\' :: 'u' :: '\x7b' :: rest)
  | '\\' :: 'u' :: rest => wordEscapeLength? ('\\' :: 'u' :: rest)
  | '\\' :: '\r' :: '\n' :: _ => some 3
  | '\\' :: c :: rest =>
    if c = 'x' then none
    else if '0' ≤ c && c ≤ '7' then
      some (2 + ((rest.take 2).takeWhile fun d => '0' ≤ d && d ≤ '7').length)
    else some 2
  | _ => none

/-- A run of plain characters or one escape, in a text where `plainLength` measures plain runs. -/
def piece (plainLength : List Char → Nat) : Parse Node := do
  let rest := (← get).cursor.rest
  let length := plainLength rest
  if length > 0 then raw .stringFragment length
  else
    match escapeLength? rest with
    | some length => raw .escapeSequence length
    | none => failure

def stringLiteral : Parse Node := do
  match (← peek).rest with
  | quote :: _ =>
    if quote = '\'' || quote = '"' then
      node .stringLiteral do
        take 1
        let plain (cs : List Char) :=
          (cs.takeWhile fun c => c ≠ quote ∧ c ≠ '\\' ∧ c ≠ '\n' ∧ c ≠ '\r').length
        let pieces ← many (piece plain)
        rawSign quote
        pure pieces
    else failure
  | [] => failure

def templateRun : List Char → Nat
  | [] => 0
  | '$' :: '\x7b' :: _ => 0
  | c :: rest => if c = '`' || c = '\\' then 0 else 1 + templateRun rest

def template (kind substitution : Kind) (content : Parse (List Node)) : Parse Node := do
  if (← peek).rest.head? != some '`' then failure
  node kind do
    take 1
    let hole : Parse Node := do
      let start := (← get).cursor
      if "$\x7b".toList.isPrefixOf start.rest then
        take 2
        let inside ← content
        sharp '\x7d'
        finish substitution start inside
      else failure
    let pieces ← many (piece templateRun <|> hole)
    rawSign '`'
    pure pieces

def numberLiteral : Parse Node := do
  let length := numberLength (← peek).rest
  if length = 0 then failure else leaf .numberLiteral length

/-- The length of the pattern of a regular expression; a slash inside brackets does not end it. -/
def patternLength? : (inBrackets : Bool) → List Char → Option Nat
  | _, [] => none
  | _, '\n' :: _ => none
  | inBrackets, '\\' :: c :: rest => if c = '\n' then none else (patternLength? inBrackets rest).map (· + 2)
  | false, '/' :: _ => some 0
  | false, '[' :: rest => (patternLength? true rest).map (· + 1)
  | true, ']' :: rest => (patternLength? false rest).map (· + 1)
  | inBrackets, _ :: rest => (patternLength? inBrackets rest).map (· + 1)

def regularExpression : Parse Node := do
  match (← peek).rest with
  | '/' :: rest =>
    match patternLength? false rest with
    | none => failure
    | some length =>
      if length = 0 then failure
      node .regex do
        take 1
        let pattern ← raw .regexPattern length
        take 1
        let flags := ((← get).cursor.rest.takeWhile fun c => 'a' ≤ c ∧ c ≤ 'z').length
        if flags > 0 then pure [pattern, ← raw .regexFlags flags] else pure [pattern]
  | _ => failure

end Phrasebook.Syntax.Parse
