import Phrasebook.Catalog.Value
import Phrasebook.Failure
import Phrasebook.Syntax.Escape

/-! Reading JSON text. Beyond the standard, the words `NaN`, `Infinity` and `-Infinity` are numbers; an object's
name that comes again keeps its first place and takes the last value. -/

namespace Phrasebook.Catalog.JsonText

open Decimal Syntax

def isSpace (c : Char) : Bool := c = ' ' || c = '\t' || c = '\n' || c = '\r'

def skipSpace (cs : List Char) : List Char := cs.dropWhile isSpace

/-- The character numbers of a quoted text behind its opening quote, and what follows the closing one. -/
def quotedNumbers : List Char → Option (List Nat × List Char)
  | [] => none
  | '"' :: rest => some ([], rest)
  | '\\' :: 'u' :: a :: b :: c :: d :: rest =>
    if [a, b, c, d].all isHexDigit then
      (quotedNumbers rest).map fun (numbers, behind) => (hexValue [a, b, c, d] :: numbers, behind)
    else none
  | '\\' :: c :: rest =>
    let plain : Option Nat :=
      match c with
      | '"' => some 34
      | '\\' => some 92
      | '/' => some 47
      | 'b' => some 8
      | 'f' => some 12
      | 'n' => some 10
      | 'r' => some 13
      | 't' => some 9
      | _ => none
    match plain with
    | none => none
    | some n => (quotedNumbers rest).map fun (numbers, behind) => (n :: numbers, behind)
  | c :: rest =>
    if c.toNat < 32 || c = '\\' then none
    else (quotedNumbers rest).map fun (numbers, behind) => (c.toNat :: numbers, behind)

def quoted (cs : List Char) : Option (String × List Char) :=
  (quotedNumbers cs).map fun (numbers, behind) => (String.ofList (charactersOf numbers), behind)

def digitsValue (digits : List Char) : Nat := digits.foldl (fun value c => 10 * value + (c.toNat - 48)) 0

def exponent? : List Char → Option (Int × List Char)
  | mark :: rest =>
    if mark = 'e' || mark = 'E' then
      let (negative, size) :=
        match rest with
        | '-' :: size => (true, size)
        | '+' :: size => (false, size)
        | size => (false, size)
      let digits := size.takeWhile Char.isDigit
      if digits.isEmpty then none
      else
        let value : Int := digitsValue digits
        some (if negative then -value else value, size.drop digits.length)
    else none
  | [] => none

/-- The digits in front of a point: a single zero, or as many as there are. -/
def wholeDigits : List Char → List Char
  | '0' :: _ => ['0']
  | rest => rest.takeWhile Char.isDigit

/-- The digits behind a point, and what follows them. A point without digits does not count. -/
def fractionDigits : List Char → List Char × List Char
  | '.' :: rest =>
    let digits := rest.takeWhile Char.isDigit
    if digits.isEmpty then ([], '.' :: rest) else (digits, rest.drop digits.length)
  | rest => ([], rest)

def unsignedNumber (negative : Bool) (cs : List Char) : Except Failure (Value × List Char) :=
  let whole := wholeDigits cs
  if whole.isEmpty then .error .malformedJson
  else
    let (fraction, behind) := fractionDigits (cs.drop whole.length)
    match fraction, exponent? behind with
    | [], none =>
      if 4300 < whole.length then .error .tooManyDigits
      else
        let value : Int := digitsValue whole
        .ok (.whole (if negative then -value else value), behind)
    | fraction, power =>
      let (shift, behind) := power.getD (0, behind)
      .ok (.real (Binary64.ofDecimal negative (digitsValue (whole ++ fraction)) (shift - fraction.length)), behind)

def number : List Char → Except Failure (Value × List Char)
  | '-' :: rest => unsignedNumber true rest
  | rest => unsignedNumber false rest

mutual

/-- A value, and what follows it. The first argument bounds the depth and the number of items. -/
def value : Nat → List Char → Except Failure (Value × List Char)
  | 0, _ => .error .malformedJson
  | steps + 1, cs =>
    match cs with
    | '"' :: rest =>
      match quoted rest with
      | some (text, behind) => .ok (.text text, behind)
      | none => .error .malformedJson
    | '[' :: rest =>
      match skipSpace rest with
      | ']' :: behind => .ok (.list [], behind)
      | inside => do
        let (items, behind) ← items steps inside
        pure (.list items, behind)
    | '\x7b' :: rest =>
      match skipSpace rest with
      | '\x7d' :: behind => .ok (.object [], behind)
      | inside => do
        let (entries, behind) ← entries steps inside
        pure (.object (Table.ofList entries), behind)
    | 'n' :: 'u' :: 'l' :: 'l' :: rest => .ok (.null, rest)
    | 't' :: 'r' :: 'u' :: 'e' :: rest => .ok (.truth true, rest)
    | 'f' :: 'a' :: 'l' :: 's' :: 'e' :: rest => .ok (.truth false, rest)
    | 'N' :: 'a' :: 'N' :: rest => .ok (.real .undefined, rest)
    | 'I' :: 'n' :: 'f' :: 'i' :: 'n' :: 'i' :: 't' :: 'y' :: rest => .ok (.real (.infinite false), rest)
    | '-' :: 'I' :: 'n' :: 'f' :: 'i' :: 'n' :: 'i' :: 't' :: 'y' :: rest => .ok (.real (.infinite true), rest)
    | other => number other

def items : Nat → List Char → Except Failure (List Value × List Char)
  | 0, _ => .error .malformedJson
  | steps + 1, cs => do
    let (first, behind) ← value steps cs
    match skipSpace behind with
    | ']' :: behind => pure ([first], behind)
    | ',' :: behind =>
      let (rest, behind) ← items steps (skipSpace behind)
      pure (first :: rest, behind)
    | _ => .error .malformedJson

def entries : Nat → List Char → Except Failure (List (String × Value) × List Char)
  | 0, _ => .error .malformedJson
  | steps + 1, cs =>
    match cs with
    | '"' :: rest =>
      match quoted rest with
      | none => .error .malformedJson
      | some (name, behind) =>
        match skipSpace behind with
        | ':' :: behind => do
          let (first, behind) ← value steps (skipSpace behind)
          match skipSpace behind with
          | '\x7d' :: behind => pure ([(name, first)], behind)
          | ',' :: behind =>
            let (rest, behind) ← entries steps (skipSpace behind)
            pure ((name, first) :: rest, behind)
          | _ => .error .malformedJson
        | _ => .error .malformedJson
    | _ => .error .malformedJson

end

def read (text : String) : Except Failure Value := do
  let cs := text.toList
  let (found, behind) ← value (2 * cs.length + 2) (skipSpace cs)
  if (skipSpace behind).isEmpty then pure found else .error .malformedJson

end Phrasebook.Catalog.JsonText
