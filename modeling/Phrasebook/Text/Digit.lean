import Phrasebook.Text.Blank

/-! Decimal digits of all scripts, and whole numbers written with them. -/

namespace Phrasebook.Text

/-- The digits zero of all scripts; the other nine follow each of them. -/
def zeroDigits : List Nat :=
  [48, 1632, 1776, 1984, 2406, 2534, 2662, 2790, 2918, 3046, 3174, 3302, 3430, 3558, 3664, 3792, 3872, 4160, 4240,
   6112, 6160, 6470, 6608, 6784, 6800, 6992, 7088, 7232, 7248, 42528, 43216, 43264, 43472, 43504, 43600, 44016,
   65296, 66720, 68912, 69734, 69872, 69942, 70096, 70384, 70736, 70864, 71248, 71360, 71472, 71904, 72016, 72784,
   73040, 73120, 92768, 92864, 93008, 120782, 120792, 120802, 120812, 120822, 123200, 123632, 125264, 130032]

def digitValue? (c : Char) : Option Nat :=
  (zeroDigits.find? fun first => first ≤ c.toNat && c.toNat < first + 10).map fun first => c.toNat - first

def digitValues? : List Char → Option (List Nat)
  | [] => none
  | [c] => (digitValue? c).map fun value => [value]
  | c :: '_' :: rest => do pure ((← digitValue? c) :: (← digitValues? rest))
  | c :: rest => do pure ((← digitValue? c) :: (← digitValues? rest))

/-- The whole number that a text is, blanks around it and a sign in front of it aside. Texts of thousands of digits
are no numbers. -/
def readInt? (text : String) : Option Int :=
  let (negative, digits) :=
    match trimChars text.toList with
    | '-' :: rest => (true, rest)
    | '+' :: rest => (false, rest)
    | rest => (false, rest)
  match digitValues? digits with
  | none => none
  | some values =>
    if 4300 < values.length then none
    else
      let size : Nat := values.foldl (fun size value => 10 * size + value) 0
      some (if negative then -(size : Int) else size)

end Phrasebook.Text
