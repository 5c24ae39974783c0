/-! Cutting texts at a mark, and the operations built on that: splitting, joining, replacing. Marks are found
from the left and never overlap. -/

namespace Phrasebook.Text

/-- What follows `mark` at the start of a text, when the text starts with it. -/
def after? : (mark text : List Char) → Option (List Char)
  | [], text => some text
  | _ :: _, [] => none
  | m :: mark, c :: text => if m = c then after? mark text else none

/-- The parts before and behind the first occurrence of `mark`. -/
def cut? (mark : List Char) : List Char → Option (List Char × List Char)
  | [] => if mark = [] then some ([], []) else none
  | c :: rest =>
    match after? mark (c :: rest) with
    | some behind => some ([], behind)
    | none => (cut? mark rest).map fun (before, behind) => (c :: before, behind)

theorem eq_append_of_after? {mark text behind : List Char} (found : after? mark text = some behind) :
    text = mark ++ behind := by
  fun_induction after? mark text with
  | case1 text => simpa using found
  | case2 => cases found
  | case3 m mark text ih => simp [ih found]
  | case4 => cases found

theorem eq_append_of_cut? {mark text before behind : List Char}
    (found : cut? mark text = some (before, behind)) : text = before ++ mark ++ behind := by
  fun_induction cut? mark text generalizing before with
  | case1 => simp_all
  | case2 => cases found
  | case3 c rest behind' seen =>
    simp only [Option.some.injEq, Prod.mk.injEq] at found
    obtain ⟨rfl, rfl⟩ := found
    simpa using eq_append_of_after? seen
  | case4 c rest _ ih =>
    simp only [Option.map_eq_some_iff, Prod.mk.injEq, Prod.exists] at found
    obtain ⟨before', behind', cutRest, rfl, rfl⟩ := found
    simp [ih cutRest]

/-- The parts of a text between the occurrences of `mark`. An empty mark leaves the text whole. -/
def splitChars (mark text : List Char) : List (List Char) :=
  match found : cut? mark text with
  | none => [text]
  | some (before, behind) =>
    if marked : mark = [] then [text]
    else
      have : behind.length < text.length := by
        have total := congrArg List.length (eq_append_of_cut? found)
        have := List.length_pos_iff.mpr marked
        simp only [List.length_append] at total
        omega
      before :: splitChars mark behind
termination_by text.length

theorem length_le_of_mem_splitChars {mark text part : List Char} (member : part ∈ splitChars mark text) :
    part.length ≤ text.length := by
  fun_induction splitChars mark text with
  | case1 => simp_all
  | case2 => simp_all
  | case3 text before behind found marked shorter ih =>
    have total := congrArg List.length (eq_append_of_cut? found)
    simp only [List.length_append] at total
    rcases List.mem_cons.mp member with same | inside
    · subst same; omega
    · have := ih inside
      omega

def split (mark text : String) : List String := (splitChars mark.toList text.toList).map String.ofList

def join (mark : String) (parts : List String) : String := mark.intercalate parts

def contains (mark text : String) : Bool := (cut? mark.toList text.toList).isSome

def startsWith (mark text : String) : Bool := (after? mark.toList text.toList).isSome

def dropStart? (mark text : String) : Option String := (after? mark.toList text.toList).map String.ofList

def suffixes : List Char → List (List Char)
  | [] => []
  | c :: rest => (c :: rest) :: suffixes rest

/-- What comes before `mark` at the end of a text. -/
def dropEnd? (mark text : String) : Option String :=
  (after? mark.toList.reverse text.toList.reverse).map fun before => String.ofList before.reverse

def endsWith (mark text : String) : Bool := (dropEnd? mark text).isSome

/-- The text with every occurrence of `mark` replaced. An empty mark occurs around every character. -/
def replace (mark replacement text : String) : String :=
  if mark = "" then
    replacement ++ String.join (text.toList.map fun c => String.singleton c ++ replacement)
  else join replacement (split mark text)

end Phrasebook.Text
