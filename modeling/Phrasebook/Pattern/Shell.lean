import Phrasebook.Text.Split

/-! Patterns of paths. A star stands for any characters, a question mark for one, and brackets for one character
of a set. -/

namespace Phrasebook.Pattern

/-- The characters from one to another; there are none when the first comes after the last. -/
structure CharRange where
  first : Char
  last : Char
deriving DecidableEq, Repr

inductive ShellPart where
  | char (c : Char)
  | anyChar
  | anyText
  | set (negated : Bool) (ranges : List CharRange)
deriving DecidableEq, Repr

/-- The ranges that the characters between brackets list. A hyphen between two others makes a range of them. -/
def rangesOf : List Char → List CharRange
  | first :: '-' :: last :: rest => ⟨first, last⟩ :: rangesOf rest
  | c :: rest => ⟨c, c⟩ :: rangesOf rest
  | [] => []

/-- The set that the characters between brackets describe; an exclamation mark in front negates it. A mark that
comes to the front because the ranges before it are empty does so too, and takes the hyphen behind it as a member. -/
def setOf (members : List Char) : ShellPart :=
  let inhabited (ranges : List CharRange) : List CharRange := ranges.filter fun range => range.first ≤ range.last
  match members with
  | '!' :: members => .set true (inhabited (rangesOf members))
  | members =>
    match inhabited (rangesOf members) with
    | ⟨'!', last⟩ :: ranges => .set true (if last = '!' then ranges else ⟨'-', '-'⟩ :: ⟨last, last⟩ :: ranges)
    | ranges => .set false ranges

/-- The characters between an opening bracket and the closing one, and what follows. A closing bracket that
comes first, or behind an exclamation mark in front, is a member. -/
def bracketed? (cs : List Char) : Option (List Char × List Char) :=
  let lead : List Char :=
    match cs with
    | '!' :: ']' :: _ => ['!', ']']
    | '!' :: _ => ['!']
    | ']' :: _ => [']']
    | _ => []
  let inner := (cs.drop lead.length).takeWhile (· ≠ ']')
  match (cs.drop lead.length).drop inner.length with
  | _ :: behind => some (lead ++ inner, behind)
  | [] => none

theorem bracketed?_length {cs members behind : List Char} (found : bracketed? cs = some (members, behind)) :
    behind.length < cs.length := by
  simp only [bracketed?] at found
  split at found
  · rename_i last rest shape
    simp only [Option.some.injEq, Prod.mk.injEq] at found
    obtain ⟨_, rfl⟩ := found
    have total := congrArg List.length shape
    simp only [List.length_drop, List.length_cons] at total
    omega
  · cases found

/-- The parts of a pattern. A bracket that is never closed stands for itself. -/
def shellParts (pattern : List Char) : List ShellPart :=
  match pattern with
  | [] => []
  | '*' :: rest => .anyText :: shellParts rest
  | '?' :: rest => .anyChar :: shellParts rest
  | '[' :: rest =>
    match found : bracketed? rest with
    | some (members, behind) =>
      have : behind.length < rest.length := bracketed?_length found
      setOf members :: shellParts behind
    | none => .char '[' :: shellParts rest
  | c :: rest => .char c :: shellParts rest
termination_by pattern.length

def ShellPart.accepts (c : Char) : ShellPart → Bool
  | .char expected => c == expected
  | .anyChar => true
  | .anyText => false
  | .set negated ranges => (ranges.any fun range => range.first ≤ c && c ≤ range.last) != negated

def partsMatch (parts : List ShellPart) (text : List Char) : Bool :=
  match parts, text with
  | [], text => text.isEmpty
  | .anyText :: parts, [] => partsMatch parts []
  | .anyText :: parts, c :: text => partsMatch parts (c :: text) || partsMatch (.anyText :: parts) text
  | _ :: _, [] => false
  | part :: parts, c :: text => part.accepts c && partsMatch parts text
termination_by (parts.length, text.length)

def shellMatches (pattern text : String) : Bool := partsMatch (shellParts pattern.toList) text.toList

/-- Whether a path is covered by one of several patterns. A pattern that starts with any directories also covers
paths without a directory. -/
def ignores (patterns : List String) (path : String) : Bool :=
  patterns.any fun pattern =>
    shellMatches pattern path ||
      match Text.dropStart? "**/" pattern with
      | some rest => shellMatches rest path
      | none => false

end Phrasebook.Pattern
