import Phrasebook.Key.Basic
import Phrasebook.Text.Split

/-! References to other keys inside a text, such as `$t(key, options)`. The content between the marks may hold
quoted texts and one level of parentheses, in which the closing mark does not count. -/

namespace Phrasebook.Reference

open Text

/-- For every place of a text behind an opening parenthesis: the lengths up to behind a closing one. Quotes may
be read as plain characters or as the ends of a quoted text; the former comes first. -/
def closings : List Char → List (List Nat)
  | [] => [[]]
  | c :: rest =>
    let later := closings rest
    let single := if c = '(' || c = ')' then [] else (later.head?.getD []).map (· + 1)
    let quoted :=
      match if c = '"' || c = '\'' then rest.idxOf? c else none with
      | some length => ((later[length + 1]?).getD []).map (· + (length + 2))
      | none => []
    let closing := if c = ')' then [1] else []
    (single ++ quoted ++ closing).eraseDups :: later

def isPlain (c : Char) : Bool := c ≠ '(' && c ≠ ')' && c ≠ '"' && c ≠ '\''

structure Extent where
  /-- The length up to the closing mark. -/
  length : Option Nat
  /-- The length of a content that goes on for at least one more character. -/
  beyond : Option Nat

/-- For every place of a text, how long a content that starts there is. A content ends before the closing mark
where it can; where it has to go on, it takes as many plain characters as possible at once. -/
def extents (closing : List Char) : List Char → List (List Nat) → List Extent
  | [], _ => [⟨if closing = [] then some 0 else none, none⟩]
  | c :: rest, places =>
    let later := extents closing rest places.tail
    let lengthAfter (steps : Nat) : Option Nat :=
      ((later[steps - 1]?).bind Extent.length).map (· + steps)
    let beyond : Option Nat :=
      if isPlain c then
        (if rest.head?.any isPlain then ((later.head?).bind Extent.beyond).map (· + 1) else none) <|> lengthAfter 1
      else if c = '(' then ((places.tail.head?).getD []).findSome? fun length => lengthAfter (length + 1)
      else if c = ')' then none
      else (rest.idxOf? c).bind fun length => lengthAfter (length + 2)
    let length := if (after? closing (c :: rest)).isSome then some 0 else beyond
    ⟨length, beyond⟩ :: later

def contentLength? (closing text : List Char) : Option Nat :=
  ((extents closing text (closings text)).head?).bind Extent.length

/-- The contents of the references in a text, behind so many characters to skip. -/
def contentsFrom (opening closing : List Char) : (skip : Nat) → List Char → List (List Char)
  | _, [] => []
  | skip + 1, _ :: rest => contentsFrom opening closing skip rest
  | 0, c :: rest =>
    match after? opening (c :: rest) with
    | none => contentsFrom opening closing 0 rest
    | some behind =>
      match contentLength? closing behind with
      | none => contentsFrom opening closing 0 rest
      | some length =>
        behind.take length :: contentsFrom opening closing (opening.length + length + closing.length - 1) rest

def contents (opening closing text : String) : List (List Char) :=
  (contentsFrom opening.toList closing.toList 0 text.toList).filter (· ≠ [])

/-- The parts before and behind the first place where options in braces start: a separator, spaces, and an
opening brace. -/
def cutOptions? (separator : List Char) : List Char → Option (List Char × List Char)
  | [] => none
  | c :: rest =>
    match (after? separator (c :: rest)).map fun behind => behind.dropWhile (· = ' ') with
    | some ('\x7b' :: behind) => some ([], behind)
    | _ => (cutOptions? separator rest).map fun (before, behind) => (c :: before, behind)

theorem cutOptions?_length {separator text before behind : List Char}
    (found : cutOptions? separator text = some (before, behind)) : behind.length < text.length := by
  induction text generalizing before with
  | nil => cases found
  | cons c rest ih =>
    simp only [cutOptions?] at found
    split at found
    · rename_i behind' shape
      simp only [Option.some.injEq, Prod.mk.injEq] at found
      obtain ⟨_, rfl⟩ := found
      obtain ⟨tail, start, drop⟩ := Option.map_eq_some_iff.mp shape
      have whole := congrArg List.length (eq_append_of_after? start)
      have part := (List.dropWhile_suffix (p := (· = ' ')) (l := tail)).length_le
      rw [drop] at part
      simp only [List.length_append, List.length_cons] at whole part ⊢
      omega
    · simp only [Option.map_eq_some_iff, Prod.mk.injEq, Prod.exists] at found
      obtain ⟨before', behind', later, rfl, rfl⟩ := found
      have := ih later
      simp only [List.length_cons]
      omega

/-- Options with one space in front of every brace that starts further options. -/
def spaceOptions (separator text : List Char) : List Char :=
  match found : cutOptions? separator text with
  | none => text
  | some (before, behind) =>
    have : behind.length < text.length := cutOptions?_length found
    before ++ separator ++ ' ' :: '\x7b' :: spaceOptions separator behind
termination_by text.length

def unquote (text : List Char) : List Char :=
  match text with
  | first :: second :: rest =>
    if (first = '"' || first = '\'') && (second :: rest).getLast? == some first then (second :: rest).dropLast
    else text
  | text => text

end Reference

structure Reference where
  key : List Char
  options : List Char
deriving DecidableEq, Repr, Inhabited

namespace Reference

open Text

/-- A reference by its content: a key, and options behind a separator. -/
def ofContent (separator content : List Char) : Reference :=
  let (key, options) :=
    match cut? separator content with
    | none => (content, [])
    | some (before, _) =>
      match cutOptions? separator content with
      | some (before, behind) => (before, '\x7b' :: spaceOptions separator behind)
      | none => (before, trimChars (content.drop (before.length + 1)))
  ⟨unquote (trimChars key), options⟩

/-- Whether a name is given behind a word in options: a quote may follow the word, and blanks may come before
the colon. The result is what follows the colon. -/
def afterName? (name text : List Char) : Option (List Char) :=
  match after? name text with
  | none => none
  | some behind =>
    let behind :=
      match behind with
      | '"' :: more | '\'' :: more => more
      | more => more
    match behind.dropWhile isBlank with
    | ':' :: value => some value
    | _ => none

def hasCount (reference : Reference) : Bool :=
  (suffixes reference.options).any fun text => (afterName? "count".toList text).isSome

def quotedLine? : List Char → Option (List Char)
  | quote :: rest =>
    if quote = '"' || quote = '\'' then
      let inner := rest.takeWhile fun c => c ≠ quote && c ≠ '\n'
      if (rest.drop inner.length).head? == some quote then some inner else none
    else none
  | [] => none

def context? (reference : Reference) : Option String :=
  ((suffixes reference.options).findSome? fun text =>
    (afterName? "context".toList text).bind fun value => quotedLine? (value.dropWhile isBlank)).map String.ofList

def all (opening closing separator text : String) : List Reference :=
  (contents opening closing text).map (ofContent separator.toList)

end Reference

end Phrasebook
