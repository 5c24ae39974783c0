import Phrasebook.Markup.CharacterName
import Phrasebook.Table
import Phrasebook.Text.Blank

/-! The text between the tags of markup: what references to characters stand for, and what is left of line
breaks. -/

namespace Phrasebook.Markup

open Syntax

/-- The characters that the numbers from 128 to 159 refer to; those that are missing stay themselves. -/
def lateCharacters : List (Nat × Nat) :=
  [(0x80, 0x20AC), (0x82, 0x201A), (0x83, 0x192), (0x84, 0x201E), (0x85, 0x2026), (0x86, 0x2020), (0x87, 0x2021),
   (0x88, 0x2C6), (0x89, 0x2030), (0x8A, 0x160), (0x8B, 0x2039), (0x8C, 0x152), (0x8E, 0x17D), (0x91, 0x2018),
   (0x92, 0x2019), (0x93, 0x201C), (0x94, 0x201D), (0x95, 0x2022), (0x96, 0x2013), (0x97, 0x2014), (0x98, 0x2DC),
   (0x99, 0x2122), (0x9A, 0x161), (0x9B, 0x203A), (0x9C, 0x153), (0x9E, 0x17E), (0x9F, 0x178)]

def isNoText (n : Nat) : Bool :=
  (1 ≤ n && n ≤ 8) || n == 11 || (14 ≤ n && n ≤ 31) || n == 127 || (0xFDD0 ≤ n && n ≤ 0xFDEF) ||
    0xFFFE ≤ n % 0x10000

def numberedCharacters (n : Nat) : List Char :=
  if 0x80 ≤ n && n ≤ 0x9F then [Char.ofNat ((Table.find? n lateCharacters).getD n)]
  else if n = 0 || 0x10FFFF < n || (0xD800 ≤ n && n ≤ 0xDFFF) then ['\ufffd']
  else if isNoText n then []
  else [Char.ofNat n]

/-- The longest beginning of a name that is open, with at least two letters, and the letters behind it. -/
def openBeginning? (name : List Char) : Option (List Char × List Char) :=
  ((List.range (name.length + 1)).reverse.filter (2 ≤ ·)).findSome? fun count =>
    if isOpenName (name.take count) then some (name.take count, name.drop count) else none

def referenced (body : List Char) : List Char :=
  match body with
  | '#' :: 'x' :: digits | '#' :: 'X' :: digits => numberedCharacters (hexValue digits)
  | '#' :: digits => numberedCharacters (digits.foldl (fun value c => 10 * value + (c.toNat - 48)) 0)
  | name =>
    match namedCharacters? name with
    | some found => found
    | none =>
      match openBeginning? name with
      | some (known, behind) => (namedCharacters? known).getD [] ++ behind ++ [';']
      | none => '&' :: name ++ [';']

/-- A text with its references to characters decoded. Every `&` of markup text starts one. -/
def decodeReferences (text : String) : String :=
  match Text.splitChars ['&'] text.toList with
  | [] => ""
  | plain :: pieces =>
    let decode (piece : List Char) : List Char :=
      match Text.cut? [';'] piece with
      | some (body, behind) => referenced body ++ behind
      | none => '&' :: piece
    String.ofList (plain ++ pieces.flatMap decode)

def indents (c : Char) : Bool := c = ' ' || c = '\t'

def trimLineStart (line : List Char) : List Char := line.dropWhile indents

def trimLineEnd (line : List Char) : List Char := (line.reverse.dropWhile indents).reverse

def dropFirstBlank : List (List Char) → List (List Char)
  | first :: second :: rest =>
    if first.all indents then trimLineStart second :: rest else first :: second :: rest
  | lines => lines

/-- The lines left, last one first, when a last one without content is dropped, and with a wholly empty one also
the one before it. -/
def dropLastBlank : List (List Char) → List (List Char)
  | last :: second :: third :: rest =>
    if last.isEmpty && second.all indents then trimLineEnd third :: rest
    else if last.all indents then trimLineEnd second :: third :: rest
    else last :: second :: third :: rest
  | [last, second] => if last.all indents then [trimLineEnd second] else [last, second]
  | lines => lines

/-- Further lines put on one line: a space stands for each line break and the indentation around it. -/
def joinFurther : List (List Char) → List Char
  | [] => []
  | [last] => ' ' :: trimLineStart last
  | line :: rest => ' ' :: trimLineEnd (trimLineStart line) ++ joinFurther rest

def joinLines : List (List Char) → List Char
  | [] => []
  | [line] => line
  | first :: rest => trimLineEnd first ++ joinFurther rest

/-- Markup text as it is shown: nothing is left of blank text with a line break, and line breaks elsewhere become
spaces or, at the ends, disappear. -/
def shownText? (text : String) : Option String :=
  let text := Text.replace "\r\n" "\n" text
  if Text.isBlankText text && Text.contains "\n" text then none
  else
    let lines := dropFirstBlank (Text.splitChars ['\n'] text.toList)
    some (String.ofList (joinLines (dropLastBlank lines.reverse).reverse))

end Phrasebook.Markup
