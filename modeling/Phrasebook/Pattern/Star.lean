import Phrasebook.Text.Split

/-! Patterns of keys that are kept whatever the sources say: a star stands for any characters of one line. -/

namespace Phrasebook.Pattern

/-- Whether a pattern covers a whole text. The text may end in a line break that the pattern does not have. -/
def starMatches (pattern text : List Char) : Bool :=
  match pattern, text with
  | [], text => text == [] || text == ['\n']
  | '*' :: pattern, [] => starMatches pattern []
  | '*' :: pattern, c :: text =>
    starMatches pattern (c :: text) || (c != '\n' && starMatches ('*' :: pattern) text)
  | _ :: _, [] => false
  | p :: pattern, c :: text => p == c && starMatches pattern text
termination_by (pattern.length, text.length)

def covers (pattern key : String) : Bool := starMatches pattern.toList key.toList

def coversKey (patterns : List String) (key : String) : Bool := patterns.any fun pattern => covers pattern key

end Phrasebook.Pattern
