import Phrasebook.Catalog.Script
import Phrasebook.Proofs.LiteralTexts
import Phrasebook.Proofs.ParseSteps

/-! Words, signs and strings at the start of a text. -/

namespace Phrasebook.Proofs.ScriptTokens

open Catalog Syntax LiteralTexts Parse ParseSteps QuotedText

variable {total : Nat} {c : Char} {cs rest behind : List Char}

section Signs

/-- The characters that no word holds besides separators and control characters. -/
def marks : List Char := ":;`\"'@#.,|^&<=>+-*/\\%?!~()[]\x7b\x7d".toList

theorem isWordChar_iff : isWordChar c = true ↔ 31 < c.toNat ∧ isSeparator c = false ∧ c ∉ marks := by
  show (31 < c.toNat && !isSeparator c && !marks.contains c) = true ↔ _
  generalize marks = chars
  simp [and_assoc]

theorem ne_of_wordChar (word : isWordChar c = true) {mark : Char} (marked : mark ∈ marks) : c ≠ mark := by
  rintro rfl
  exact (isWordChar_iff.mp word).2.2 marked

theorem heads_of_signs : ∀ sign ∈ signs, sign.toList.head?.any marks.contains = true := by
  decide +kernel

/-- No sign starts with a character of a word. -/
theorem sign?_of_wordChar (word : isWordChar c = true) (rest : List Char) : sign? (c :: rest) = none := by
  have noSign : signs.find? (fun sign => sign.toList.isPrefixOf (c :: rest)) = none := by
    rw [List.find?_eq_none]
    intro sign member starts
    obtain ⟨mark, head, marked⟩ := (Option.any_eq_true _ _).mp (heads_of_signs sign member)
    obtain ⟨more, same⟩ := List.isPrefixOf_iff_prefix.mp starts
    cases chars : sign.toList with
    | nil =>
      rw [chars] at head
      cases head
    | cons first others =>
      rw [chars] at head same
      obtain rfl := Option.some.inj head
      exact ne_of_wordChar word (List.contains_iff_mem.mp marked) (List.cons.inj same).1.symm
  have noCondition : c ≠ '?' := ne_of_wordChar word (by decide)
  unfold sign?
  split
  next same => exact absurd (List.cons.inj same).1 noCondition
  next => exact noSign

/-- The characters that a comment may start with. -/
def commentMarks : List Char := ['/', '<', '-']

theorem commentAt?_cons (noComment : c ∉ commentMarks) (rest : List Char) : commentAt? true (c :: rest) = none := by
  simp only [commentMarks, List.mem_cons, List.not_mem_nil, or_false, not_or] at noComment
  obtain ⟨slash, less, dash⟩ := noComment
  have noLength : commentLength? (c :: rest) = none := by
    unfold commentLength?
    split
    next same => exact absurd (List.cons.inj same).1 slash
    next same => exact absurd (List.cons.inj same).1 slash
    next => rfl
  simp [commentAt?, noLength, markupCommentLength?, Ne.symm less, Ne.symm dash]

/-- A token that is no comment stands where it starts. -/
theorem skips_cons (plain : isSeparator c = false ∧ c ∉ commentMarks) (rest : List Char) :
    Skips (c :: rest) (c :: rest) := by
  refine .here ?_ (commentAt?_cons plain.2 rest)
  rintro _ ⟨⟩
  exact plain.1

theorem skips_wordChar (word : isWordChar c = true) (rest : List Char) : Skips (c :: rest) (c :: rest) := by
  refine skips_cons ⟨(isWordChar_iff.mp word).2.1, fun marked => ?_⟩ rest
  have inside : commentMarks ⊆ marks := by decide
  exact ne_of_wordChar word (inside marked) rfl

end Signs

section Words

/-- What may stand behind a word without becoming a part of it. -/
def EndsWord (rest : List Char) : Prop := ∀ c ∈ rest.head?, isWordChar c = false ∧ c ≠ '\\'

theorem endsWord_cons (noWord : isWordChar c = false ∧ c ≠ '\\') (rest : List Char) : EndsWord (c :: rest) := by
  rintro _ ⟨⟩
  exact noWord

theorem wordLength_append {word : List Char} (chars : ∀ c ∈ word, isWordChar c = true) (ends : EndsWord rest)
    {steps : Nat} (enough : word.length < steps) : wordLength steps (word ++ rest) = word.length := by
  induction word generalizing steps with
  | nil =>
    cases steps with
    | zero => exact absurd enough (Nat.not_lt_zero _)
    | succ steps =>
      cases rest with
      | nil => rfl
      | cons c rest =>
        obtain ⟨noWord, noEscape⟩ := ends c rfl
        have plain : wordEscapeLength? (c :: rest) = none := by
          unfold wordEscapeLength?
          split
          next same => exact absurd (List.cons.inj same).1 noEscape
          next same => exact absurd (List.cons.inj same).1 noEscape
          next => rfl
        simp [wordLength, noWord, plain]
  | cons c word ih =>
    cases steps with
    | zero => exact absurd enough (Nat.not_lt_zero _)
    | succ steps =>
      have here : isWordChar c = true := chars c List.mem_cons_self
      rw [List.cons_append, wordLength]
      simp only [here, if_true]
      rw [ih (fun other member => chars other (List.mem_cons_of_mem _ member)) (Nat.lt_of_succ_lt_succ enough),
        List.length_cons, Nat.add_comm]

theorem wordAt_append {word : List Char} (chars : ∀ c ∈ word, isWordChar c = true)
    (first : ∃ c more, word = c :: more ∧ c.isDigit = false) (ends : EndsWord rest) :
    WordAt (word ++ rest) (some (String.ofList word)) := by
  intro steps enough
  obtain ⟨c, more, rfl, noDigit⟩ := first
  have length : wordLength steps (c :: more ++ rest) = (c :: more).length :=
    wordLength_append chars ends (by rw [List.length_append] at enough; omega)
  rw [List.cons_append, word?]
  rw [List.cons_append] at length
  simp only [noDigit, Bool.false_eq_true, if_false, length]
  rw [if_neg (by simp), ← List.cons_append, List.take_left]

theorem wordAt_none (noWord : isWordChar c = false ∧ c ≠ '\\') (rest : List Char) : WordAt (c :: rest) none := by
  intro steps enough
  have ends : EndsWord (c :: rest) := endsWord_cons noWord rest
  have length : wordLength steps ([] ++ c :: rest) = 0 :=
    wordLength_append (List.forall_mem_nil _) ends (Nat.lt_of_le_of_lt (Nat.zero_le _) enough)
  rw [List.nil_append] at length
  rw [word?, length]
  split <;> rfl

theorem wordAt_digit (digit : c.isDigit = true) (rest : List Char) : WordAt (c :: rest) none := by
  intro steps _
  rw [word?, if_pos digit]

theorem wordAt_nil : WordAt [] none := fun _ _ => rfl

theorem isWordChar_of_isDigit (digit : c.isDigit = true) : isWordChar c = true := by
  have bounds : 48 ≤ c.toNat ∧ c.toNat ≤ 57 := by
    simpa [Char.isDigit, UInt32.le_iff_toNat_le] using digit
  have same : Char.ofNat c.toNat = c := Char.ofNat_toNat c
  rw [← same]
  generalize c.toNat = number at bounds
  have all : ∀ number : Fin 58, 48 ≤ number.val → isWordChar (Char.ofNat number.val) = true := by decide
  exact all ⟨number, Nat.lt_succ_of_le bounds.2⟩ bounds.1

end Words

section Strings

/-- The ways in which a character stands in quotes. -/
inductive Written (c : Char) : List Char → Prop
  | plain (quote : c ≠ '"') (slash : c ≠ '\\') (line : c ≠ '\n') (back : c ≠ '\r') : Written c [c]
  | short {mark : Char} (marked : mark ∈ ['"', '\\', 'n', 'r', 't', 'b', 'f']) (means : simpleEscape mark = [c.toNat]) :
      Written c ['\\', mark]
  | long {high low : Char} (digits : ['0', '0', high, low].all isHexDigit = true)
      (means : hexValue ['0', '0', high, low] = c.toNat) : Written c ['\\', 'u', '0', '0', high, low]

theorem written_quotedChar (c : Char) : Written c (quotedChar c) := by
  unfold quotedChar Value.escape?
  split
  next => exact .short (by decide) rfl
  next => exact .short (by decide) rfl
  next => exact .short (by decide) rfl
  next => exact .short (by decide) rfl
  next => exact .short (by decide) rfl
  next noQuote noSlash noLine noReturn _ =>
    split
    next back =>
      have letter : "\\b".toList = ['\\', 'b'] := rfl
      rw [Option.getD_some, letter]
      exact .short (by decide) (by rw [back]; rfl)
    next =>
      split
      next feed =>
        have letter : "\\f".toList = ['\\', 'f'] := rfl
        rw [Option.getD_some, letter]
        exact .short (by decide) (by rw [feed]; rfl)
      next =>
        split
        next control =>
          have digits := hexValue_of_control control
          rw [Option.getD_some, String.toList_append, String.toList_ofList, String.toList_ofList]
          exact .long digits.1 digits.2
        next =>
          rw [Option.getD_none, String.toList_singleton]
          exact .plain noQuote noSlash noLine noReturn

/-- An escape that stands for a character is read whole. -/
theorem Written.escapeLength {cs : List Char} (written : Written c cs) (escaped : cs ≠ [c]) (rest : List Char) :
    escapeLength? (cs ++ rest) = some cs.length := by
  cases written with
  | plain => exact absurd rfl escaped
  | short marked =>
    simp only [List.mem_cons, List.not_mem_nil, or_false] at marked
    rcases marked with rfl | rfl | rfl | rfl | rfl | rfl | rfl <;> rfl
  | @long high low digits =>
    show wordEscapeLength? ('\\' :: 'u' :: '0' :: '0' :: high :: low :: rest) = some 6
    rw [wordEscapeLength?, if_pos digits]
    decide

/-- A character in quotes spells its code units. -/
theorem Written.spells {cs source : List Char} {units : List Nat} (written : Written c cs) (rest : Spells source units) :
    Spells (cs ++ source) (codeUnits c.toNat ++ units) := by
  cases written with
  | plain _ slash _ back => exact .plain slash back rest
  | @short mark marked means =>
    simp only [List.mem_cons, List.not_mem_nil, or_false] at marked
    rcases marked with rfl | rfl | rfl | rfl | rfl | rfl | rfl
    all_goals rw [← (List.cons.inj means).1]
    · exact .itself (by decide) rfl rest
    · exact .itself (by decide) rfl rest
    all_goals exact .control (by decide) rest
  | long digits means =>
    have single : codeUnits c.toNat = [c.toNat] := codeUnits_of_small (means ▸ hexValue_lt_of_four digits)
    rw [single, ← means]
    exact .unit digits rest

theorem spells_quoted (text : List Char) : Spells (text.flatMap quotedChar) (textUnits text) := by
  induction text with
  | nil => exact .nothing
  | cons c text ih => exact (written_quotedChar c).spells ih

theorem length_le_flatMap_quotedChar (text : List Char) : text.length ≤ (text.flatMap quotedChar).length := by
  induction text with
  | nil => exact Nat.le_refl _
  | cons c text ih =>
    have some : 0 < (quotedChar c).length := by
      have written := written_quotedChar c
      generalize quotedChar c = cs at written
      cases written <;> exact Nat.succ_pos _
    rw [List.flatMap_cons, List.length_append, List.length_cons]
    omega

/-- Whether a character of a string in double quotes is no part of an escape or the string's end. -/
def isPlain (c : Char) : Bool := c ≠ '"' ∧ c ≠ '\\' ∧ c ≠ '\n' ∧ c ≠ '\r'

theorem isPlain_or_escaped (c : Char) :
    (isPlain c = true ∧ quotedChar c = [c]) ∨ (quotedChar c ≠ [c] ∧ ∃ more, quotedChar c = '\\' :: more ∧
      ∀ rest, escapeLength? (quotedChar c ++ rest) = some (quotedChar c).length) := by
  have written := written_quotedChar c
  generalize quotedChar c = cs at written
  have lengths := written.escapeLength
  cases written with
  | plain quote slash line back => exact .inl ⟨decide_eq_true ⟨quote, slash, line, back⟩, rfl⟩
  | @short mark marked =>
    have several : ['\\', mark] ≠ [c] := by simp
    exact .inr ⟨several, _, rfl, lengths several⟩
  | @long high low =>
    have several : ['\\', 'u', '0', '0', high, low] ≠ [c] := by simp
    exact .inr ⟨several, _, rfl, lengths several⟩

theorem reads_raw {length : Nat} (enough : length ≤ cs.length) (kind : Kind) :
    Reads total (raw kind length) cs (cs.drop length) (IsLeaf kind (cs.take length)) := by
  refine Reads.get fun reading ready => (reads_take enough).bind fun _ _ => ?_
  refine (reads_finish ready.cursor kind []).weaken fun node same => ⟨reading.cursor.place, ?_⟩
  rw [same, List.length_drop, Nat.sub_sub_self enough]

theorem reads_rawSign (c : Char) (rest : List Char) : Reads total (rawSign c) (c :: rest) rest fun _ => True := by
  refine Reads.get fun reading ready => ?_
  rw [ready.cursor.rest, List.head?_cons, beq_self_eq_true, if_pos rfl]
  exact reads_take (Nat.succ_le_succ (Nat.zero_le _))

/-- A node of a string: characters as they stand, or one escape. -/
def IsPiece (node : Node) : Prop := ∃ kind ∈ [Kind.stringFragment, .escapeSequence], ∃ text, IsLeaf kind text node

/-- The length of a run of characters that stand as they are. -/
def plainLength (cs : List Char) : Nat := (cs.takeWhile isPlain).length

theorem fails_piece (rest : List Char) : Fails total (piece plainLength) ('"' :: rest) := by
  refine fails_get fun reading ready => ?_
  rw [ready.cursor.rest]
  exact fails_failure

/-- Characters up to the first one that is escaped. -/
def plainRun (text : List Char) : List Char := text.takeWhile fun c => quotedChar c = [c]

theorem plainRun_plain (plain : quotedChar c = [c]) (text : List Char) : plainRun (c :: text) = c :: plainRun text :=
  List.takeWhile_cons_of_pos (decide_eq_true plain)

theorem plainRun_escaped (escaped : quotedChar c ≠ [c]) (text : List Char) : plainRun (c :: text) = [] :=
  List.takeWhile_cons_of_neg (by simpa using escaped)

theorem plainRun_append (text : List Char) : ∃ left, text = plainRun text ++ left ∧
    text.flatMap quotedChar = plainRun text ++ left.flatMap quotedChar := by
  induction text with
  | nil => exact ⟨[], rfl, rfl⟩
  | cons c text ih =>
    by_cases plain : quotedChar c = [c]
    · obtain ⟨left, same, quoted⟩ := ih
      rw [plainRun_plain plain]
      refine ⟨left, congrArg (c :: ·) same, ?_⟩
      rw [List.flatMap_cons, plain, quoted]
      rfl
    · rw [plainRun_escaped plain]
      exact ⟨c :: text, rfl, rfl⟩

theorem takeWhile_quoted (text rest : List Char) :
    (text.flatMap quotedChar ++ '"' :: rest).takeWhile isPlain = plainRun text := by
  induction text with
  | nil => rfl
  | cons c text ih =>
    rcases isPlain_or_escaped c with ⟨plain, same⟩ | ⟨escaped, more, same, -⟩
    · rw [plainRun_plain same, ← ih, List.flatMap_cons, same]
      exact List.takeWhile_cons_of_pos plain
    · rw [plainRun_escaped escaped, List.flatMap_cons, same]
      rfl

/-- A piece of a string takes a run of plain characters, or one escape. -/
theorem reads_piece {text : List Char} (some : text ≠ []) (rest : List Char) :
    ∃ left : List Char, left.length < text.length ∧ Reads total (piece plainLength) (text.flatMap quotedChar ++ '"' :: rest)
      (left.flatMap quotedChar ++ '"' :: rest) IsPiece := by
  have length : plainLength (text.flatMap quotedChar ++ '"' :: rest) = (plainRun text).length := by
    rw [plainLength, takeWhile_quoted]
  by_cases run : 0 < (plainRun text).length
  · obtain ⟨left, parts, quoted⟩ := plainRun_append text
    have shorter : left.length < text.length := by
      have lengths := congrArg List.length parts
      rw [List.length_append] at lengths
      omega
    refine ⟨left, shorter, Reads.get fun reading ready => ?_⟩
    rw [ready.cursor.rest]
    dsimp only
    rw [length, if_pos run]
    have taken : Reads total (raw .stringFragment (plainRun text).length) (text.flatMap quotedChar ++ '"' :: rest) _ _ :=
      reads_raw (by rw [quoted, List.append_assoc, List.length_append]; omega) _
    rw [quoted, List.append_assoc, List.drop_left] at taken
    rw [quoted, List.append_assoc]
    exact taken.weaken fun node leaf => ⟨_, .head _, _, leaf⟩
  · cases text with
    | nil => exact absurd rfl some
    | cons c text =>
      rcases isPlain_or_escaped c with ⟨-, same⟩ | ⟨-, more, -, escape⟩
      · rw [plainRun_plain same] at run
        exact absurd (Nat.succ_pos _) run
      · refine ⟨text, Nat.lt_succ_self _, Reads.get fun reading ready => ?_⟩
        rw [ready.cursor.rest]
        dsimp only
        rw [length, if_neg run, List.flatMap_cons, List.append_assoc, escape]
        have taken : Reads total (raw .escapeSequence (quotedChar c).length)
            (quotedChar c ++ (text.flatMap quotedChar ++ '"' :: rest)) _ _ :=
          reads_raw (by rw [List.length_append]; omega) _
        rw [List.drop_left] at taken
        exact taken.weaken fun node leaf => ⟨_, .tail _ (.head _), _, leaf⟩

theorem reads_pieces (text rest : List Char) {limit : Nat} (enough : text.length < limit) :
    Reads total (repeatUpTo (piece plainLength) limit) (text.flatMap quotedChar ++ '"' :: rest) ('"' :: rest)
      fun nodes => ∀ node ∈ nodes, IsPiece node := by
  induction limit generalizing text with
  | zero => exact absurd enough (Nat.not_lt_zero _)
  | succ limit ih =>
    by_cases nothing : text = []
    · subst nothing
      refine (reads_repeatUpTo_none (fails_piece rest) _).weaken ?_
      rintro _ rfl
      exact List.forall_mem_nil _
    · obtain ⟨left, shorter, reads⟩ := reads_piece nothing rest
      refine reads_repeatUpTo_cons reads fun first piece => ?_
      refine (ih left (Nat.lt_of_lt_of_le shorter (Nat.le_of_lt_succ enough))).weaken fun nodes pieces => ?_
      exact List.forall_mem_cons.mpr ⟨piece, pieces⟩

/-- A string node of a quoted text. -/
def IsString (text : String) (node : Node) : Prop := ∃ start children, (∀ child ∈ children, IsPiece child) ∧
  node = ⟨.stringLiteral, none, Value.quote text, start, children⟩

theorem reads_stringLiteral {text : String} (skips : Skips cs ((Value.quote text).toList ++ behind)) :
    Reads total stringLiteral cs behind (IsString text) := by
  have content : (Value.quote text).toList ++ behind =
      '"' :: (text.toList.flatMap quotedChar ++ '"' :: behind) := by
    rw [toList_quote, List.cons_append, List.append_assoc, List.singleton_append]
  refine (reads_peek skips).bind fun cursor stands => ?_
  rw [stands.rest, content]
  have inside : Reads total (do
      take 1
      let pieces ← many (piece plainLength)
      rawSign '"'
      pure pieces) ((Value.quote text).toList ++ behind) behind fun nodes => ∀ node ∈ nodes, IsPiece node := by
    rw [content]
    refine (reads_take (Nat.succ_le_succ (Nat.zero_le _))).bind fun _ _ => ?_
    refine (reads_many fun limit enough => reads_pieces text.toList behind ?_).bind fun nodes pieces => ?_
    · have shorter := length_le_flatMap_quotedChar text.toList
      rw [List.length_append] at enough
      omega
    · exact (reads_rawSign '"' behind).bind fun _ _ => .pure nodes pieces
  refine (reads_node skips .stringLiteral inside).weaken ?_
  rintro _ ⟨start, children, pieces, rfl⟩
  refine ⟨start, children, pieces, ?_⟩
  rw [List.length_append, Nat.add_sub_cancel, List.take_left, String.ofList_toList]

end Strings

end Phrasebook.Proofs.ScriptTokens
