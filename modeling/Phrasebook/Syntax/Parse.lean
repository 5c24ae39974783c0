import Phrasebook.Syntax.Cursor

/-! Steps that read a script from left to right. A step either fails, and then nothing was read, or it moves
the place behind the last token. Comments wait until the innermost node that holds them on both sides is
finished, and become its children there. -/

namespace Phrasebook.Syntax

/-- The two readings of `<`: a cast in typed scripts, an element in scripts with markup. -/
inductive Dialect where
  | typed | markup
deriving DecidableEq, Repr, Inhabited

structure Reading where
  dialect : Dialect
  /-- An upper bound for the number of steps any loop over the text takes. -/
  limit : Nat
  /-- The place behind the last token. -/
  cursor : Cursor
  /-- Comments no finished node holds yet, the newest first. -/
  comments : List Node
  /-- Whether neither an operator nor the end of a statement can come next. -/
  fresh : Bool

abbrev Parse := StateT Reading Option

namespace Parse

/-- The parts of syntax that contain one another. Every other rule is a plain function of the rule for
these. -/
inductive Goal where
  /-- An expression without commas. `tail` tells that a statement may end behind it, `plain` that parameters
  in front of `=>` have no result type. -/
  | expression (tail plain : Bool)
  /-- An operand of an operator that binds tighter than `level`. -/
  | operand (tail plain : Bool) (level : Nat)
  | statement | block | binding | type | element
deriving Repr, Inhabited

abbrev Rules := Goal → Parse Node

def ahead : Parse (Cursor × List Node) := do
  let reading ← get
  pure (reading.cursor.skipTrivia reading.fresh (reading.limit + 1) reading.comments)

def peek : Parse Cursor := do pure (← ahead).1

/-- The place of the next token, with everything before it read. -/
def begin : Parse Cursor := do
  let (cursor, comments) ← ahead
  modify fun reading => { reading with cursor, comments }
  pure cursor

def wordAt (cursor : Cursor) : Parse (Option String) := do pure (word? ((← get).limit + 1) cursor.rest)

def nextWord : Parse (Option String) := do wordAt (← peek)

def nextSign : Parse (Option String) := do pure (sign? (← peek).rest)

def sees (sign : String) : Parse Bool := do pure ((← nextSign) == some sign)

def seesWord (word : String) : Parse Bool := do pure ((← nextWord) == some word)

/-- Reads the next characters of the text as they stand. -/
def take (count : Nat) : Parse Unit := modify fun reading =>
  { reading with
    cursor := reading.cursor.skip count
    fresh := count ≤ 4 && leavesFresh (reading.cursor.rest.take count) }

/-- Tells that neither an operator nor the end of a statement can come next. -/
def refresh : Parse Unit := modify fun reading => { reading with fresh := true }

def sign (text : String) : Parse Unit := do
  if ← sees text then
    let _ ← begin
    take text.length
  else failure

/-- Reads one character as a sign of its own, whatever follows it. -/
def sharp (c : Char) : Parse Unit := do
  let cursor ← peek
  if cursor.rest.head? == some c then
    let _ ← begin
    take 1
  else failure

def keyword (text : String) : Parse Unit := do
  if ← seesWord text then
    let _ ← begin
    take text.length
  else failure

def optional (step : Parse α) : Parse (Option α) := (do pure (some (← step))) <|> pure none

def accept (text : String) : Parse Bool := do
  if ← sees text then
    sign text
    pure true
  else pure false

def acceptWord (text : String) : Parse Bool := do
  if ← seesWord text then
    keyword text
    pure true
  else pure false

def repeatUpTo (step : Parse α) : Nat → Parse (List α)
  | 0 => pure []
  | limit + 1 => do
    match ← optional step with
    | none => pure []
    | some first => pure (first :: (← repeatUpTo step limit))

def many (step : Parse α) : Parse (List α) := do repeatUpTo step (← get).limit

/-- The children of a node with the comments among them, all in source order. -/
def inOrder (children comments : List Node) : List Node :=
  if comments.isEmpty then children
  else (children ++ comments).mergeSort fun a b => a.start.offset ≤ b.start.offset

/-- Finishes the node that starts at a given place. The comments behind its start become its children. -/
def finish (kind : Kind) (start : Cursor) (children : List Node) : Parse Node := do
  let reading ← get
  let (inside, outside) := reading.comments.partition fun comment => start.place.offset < comment.start.offset
  set { reading with comments := outside }
  pure (start.node kind reading.cursor (inOrder children inside.reverse))

def node (kind : Kind) (step : Parse (List Node)) : Parse Node := do
  let start ← begin
  let children ← step
  finish kind start children

def leaf (kind : Kind) (length : Nat) : Parse Node := node kind do
  take length
  pure []

def anyWord (kind : Kind) : Parse Node := do
  match ← nextWord with
  | some text => leaf kind text.length
  | none => failure

def wordNode (kind : Kind) (text : String) : Parse Node := do
  if ← seesWord text then leaf kind text.length else failure

def signNode (kind : Kind) (text : String) : Parse Node := do
  if ← sees text then leaf kind text.length else failure

/-- Items with commas between them; places between two commas may be empty when `holes` says so, and a comma
may follow the last item when `trailing` says so. The list ends where neither an item nor a comma follows. -/
def commaListUpTo (item : Parse Node) (holes trailing : Bool) : Nat → Parse (List Node)
  | 0 => pure []
  | limit + 1 => do
    match ← optional item with
    | none =>
      if holes then
        if ← accept "," then commaListUpTo item holes trailing limit else pure []
      else if trailing then pure [] else failure
    | some first =>
      if ← accept "," then pure (first :: (← commaListUpTo item holes trailing limit)) else pure [first]

def commaHoles (item : Parse Node) : Parse (List Node) := do commaListUpTo item true true (← get).limit

/-- Items with commas between and possibly one behind them. -/
def commaList (item : Parse Node) : Parse (List Node) := do commaListUpTo item false true (← get).limit

def commaSome (item : Parse Node) : Parse (List Node) := do commaListUpTo item false false (← get).limit

/-- What a statement that may end without a semicolon was reading last. -/
inductive Ending where
  /-- An expression: an operator or a bracket on the next line continues it. -/
  | expression
  /-- A word or a type: a bracket on the next line starts something new. -/
  | bare
  /-- The head of a function: a brace on the next line is its body. -/
  | signature
deriving DecidableEq, Repr

/-- Whether the first token of a new line starts a new statement. -/
def startsStatement (ending : Ending) (cs : List Char) : Bool :=
  match cs with
  | [] => true
  | '+' :: rest => rest.head? == some '+'
  | '-' :: rest => rest.head? == some '-'
  | '!' :: rest => rest.head? != some '='
  | 'i' :: 'n' :: rest =>
    match rest with
    | c :: _ =>
      if !c.isAlpha then false
      else if "stanceof".toList.isPrefixOf rest then
        match rest.drop 8 with
        | d :: _ => d.isAlpha
        | [] => false
      else true
    | [] => false
  | c :: _ =>
    if c = '(' || c = '[' then ending != .expression
    else if c = '\x7b' then ending != .signature
    else !"`,.;*%><=?^|&/:".toList.contains c

/-- Whether a statement ends at a place without a semicolon: at the end of the text or of a block, or where the
next line starts a new one. -/
def endsHere (limit : Nat) (ending : Ending) (cursor : Cursor) : Bool :=
  let behind := cursor.rest.dropWhile fun c => isSeparator c && c != '\n'
  match behind with
  | [] => true
  | '\x7d' :: rest =>
    let next := rest.dropWhile isSeparator
    next.head? != some ':' || ending == .expression
  | '\n' :: rest =>
    let next := (Cursor.skipTrivia false (limit + 1) ⟨rest, cursor.place⟩ []).1.rest
    startsStatement ending next
  | _ => false

/-- Reads the comments up to where a statement ends without a semicolon, or up to what `otherwise` reads. -/
def endingWithin (ending : Ending) (otherwise : Parse Unit) : Nat → Parse Unit
  | 0 => failure
  | steps + 1 => do
    let reading ← get
    if endsHere reading.limit ending reading.cursor then refresh
    else
      let blanks := (reading.cursor.rest.takeWhile isSeparator).length
      let cursor := reading.cursor.skip blanks
      match commentLength? cursor.rest with
      | some length =>
        let later := cursor.skip length
        set { reading with cursor := later, comments := cursor.node .comment later [] :: reading.comments }
        endingWithin ending otherwise steps
      | none => otherwise

/-- Reads the end of a statement, a semicolon or the lack of one; comments may stand before it. -/
def semicolon (ending : Ending) : Parse Unit := do endingWithin ending (sign ";") ((← get).limit + 1)

/-- Reads the comments behind a closing brace up to the end of its line. -/
def trailingComments : Parse Unit := do
  let _ ← optional (endingWithin .bare failure ((← get).limit + 1))

/-- Whether a statement may end behind the last token, so that nothing on the next line belongs to it. -/
def closes (tail : Bool) : Parse Bool := do
  let reading ← get
  pure (tail && endsHere reading.limit .expression reading.cursor)

def onNextLine : Parse Bool := do
  let reading ← get
  pure ((← peek).place.line != reading.cursor.place.line)

end Parse

end Phrasebook.Syntax
