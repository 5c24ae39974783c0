import Phrasebook.Failure
import Phrasebook.Syntax.Cursor

/-! Escapes in the text of strings and templates. -/

namespace Phrasebook.Syntax

def hexValue (digits : List Char) : Nat :=
  digits.foldl (fun value c =>
    16 * value + (if c.isDigit then c.toNat - 48 else if 'a' ≤ c then c.toNat - 87 else c.toNat - 55)) 0

/-- What a single character behind a backslash stands for: nothing for a line break, itself for most. -/
def simpleEscape (c : Char) : List Nat :=
  match c with
  | 'n' => [10]
  | 't' => [9]
  | 'r' => [13]
  | 'b' => [8]
  | 'f' => [12]
  | 'v' => [11]
  | '0' => [0]
  | '\n' | '\r' => []
  | c => if c.toNat = 0x2028 || c.toNat = 0x2029 then [] else [c.toNat]

/-- The character numbers of a text with its escapes decoded. The first argument bounds the number of steps. -/
def decodeNumbers : Nat → List Char → Except Failure (List Nat)
  | 0, _ => .ok []
  | steps + 1, cs =>
    match cs with
    | [] => .ok []
    | '\\' :: rest => do
      match rest with
      | [] => .ok ['\\'.toNat]
      | 'u' :: '\x7b' :: more =>
        let digits := more.takeWhile isHexDigit
        match digits, more.drop digits.length with
        | _ :: _, '\x7d' :: behind =>
          let value := hexValue digits
          if 0x7FFFFFFF < value then .error .characterNumberTooLarge
          else if 0x10FFFF < value then .error .noSuchCharacter
          else pure (value :: (← decodeNumbers steps behind))
        | _, _ => pure ('u'.toNat :: (← decodeNumbers steps ('\x7b' :: more)))
      | c :: more =>
        let counted (count : Nat) : Option (Nat × List Char) :=
          let digits := more.take count
          if digits.length = count && digits.all isHexDigit then some (hexValue digits, more.drop count) else none
        let numbered := if c = 'u' then counted 4 else if c = 'x' then counted 2 else none
        match numbered with
        | some (value, behind) => pure (value :: (← decodeNumbers steps behind))
        | none =>
          match c, more with
          | '\r', '\n' :: behind => decodeNumbers steps behind
          | c, more => pure (simpleEscape c ++ (← decodeNumbers steps more))
    | c :: rest => do pure (c.toNat :: (← decodeNumbers steps rest))

/-- The characters with given numbers. Two numbers that encode one character together become that character;
half of such a pair becomes the replacement character. -/
def charactersOf : List Nat → List Char
  | [] => []
  | [n] => [if n < 0xD800 || 0xDFFF < n then Char.ofNat n else '\ufffd']
  | high :: low :: rest =>
    if 0xD800 ≤ high && high ≤ 0xDBFF && 0xDC00 ≤ low && low ≤ 0xDFFF then
      Char.ofNat (0x10000 + (high - 0xD800) * 0x400 + (low - 0xDC00)) :: charactersOf rest
    else
      (if high < 0xD800 || 0xDFFF < high then Char.ofNat high else '\ufffd') :: charactersOf (low :: rest)

def decodeEscapes (text : String) : Except Failure String := do
  pure (String.ofList (charactersOf (← decodeNumbers (text.length + 1) text.toList)))

end Phrasebook.Syntax
