import Phrasebook.Proofs.ScriptExpressions
import Phrasebook.Proofs.ScriptNodes
import Phrasebook.Proofs.SettledCatalogs

/-! The text of a value on indented lines as a script: it is parsed as one expression, of which the value is read. -/

namespace Phrasebook.Proofs.ScriptValues

open Catalog Decimal Binary64 Value NumberText ParseSteps QuotedText ScriptExpressions ScriptNodes ScriptNumbers ScriptTokens
open Syntax Parse

variable {rules : Rules} {tail plain : Bool} {total : ℕ} {cs tok behind next : List Char} {c : Char}

section Surroundings

/-- What stands behind an item of a printed list or object. -/
inductive Follows : List Char → Prop
  | comma (rest : List Char) : Follows (',' :: rest)
  | line {blanks : List Char} (separate : ∀ c ∈ blanks, isSeparator c = true) {closing : Char}
      (closes : closing = ']' ∨ closing = '\x7d') (rest : List Char) : Follows ('\n' :: (blanks ++ closing :: rest))

theorem Follows.delimited (follows : Follows behind) : Delimited behind := by
  cases follows with
  | comma rest => exact .comma rest
  | line => exact .line _

theorem Follows.endsWord (follows : Follows behind) : EndsWord behind := by
  cases follows with
  | comma => exact endsWord_cons (by decide) _
  | line => exact endsWord_cons (by decide) _

theorem endsExpression_closing (skips : Skips behind (c :: cs)) (closes : c ∈ [',', ']', '\x7d', ';'])
    (goesOn : tail = true → ∀ limit place, endsHere limit .expression ⟨behind, place⟩ = false) :
    EndsExpression tail behind (c :: cs) := by
  have closing : sign? (c :: cs) = some (String.singleton c) ∧ c ≠ '`' ∧ (isWordChar c = false ∧ c ≠ '\\') ∧
      some (String.singleton c) ∈ [none, some ",", some "]", some "\x7d", some ";"] := by
    simp only [List.mem_cons, List.not_mem_nil, or_false] at closes
    rcases closes with rfl | rfl | rfl | rfl
    all_goals exact ⟨rfl, by decide, by decide, by decide⟩
  obtain ⟨sign, noTemplate, noWord, member⟩ := closing
  refine ⟨⟨skips, sign ▸ member, ?_, goesOn⟩, ?_, wordAt_none noWord cs⟩
  · exact fun same => noTemplate (Option.some.inj same)
  · rw [sign]
    exact Option.some_ne_none _

theorem Follows.ends (follows : Follows behind) : ∃ next, EndsExpression false behind next := by
  have never : false = true → ∀ limit place, endsHere limit .expression ⟨behind, place⟩ = false :=
    fun same => absurd same Bool.false_ne_true
  cases follows with
  | comma rest =>
    exact ⟨_, endsExpression_closing (skips_cons (by decide) rest) (by decide) never⟩
  | @line blanks separate closing closes rest =>
    have skips : Skips ('\n' :: (blanks ++ closing :: rest)) (closing :: rest) := by
      refine .separator rfl (Skips.append separate ?_)
      rcases closes with rfl | rfl
      · exact skips_cons (by decide) rest
      · exact skips_cons (by decide) rest
    refine ⟨_, endsExpression_closing skips ?_ never⟩
    rcases closes with rfl | rfl
    · decide
    · decide

end Surroundings

section Operands

theorem startsOperand_wordChar {word : Option String} (wordChar : isWordChar c = true) (wordAt : WordAt (c :: cs) word)
    (noWord : word ∉ [some "new", some "typeof", some "void", some "delete", some "await", some "yield"]) :
    StartsOperand (c :: cs) where
  skips := skips_wordChar wordChar cs
  sign := by
    rw [sign?_of_wordChar wordChar]
    exact List.mem_cons_self
  word := ⟨word, wordAt, noWord⟩

theorem startsOperand_digit (digit : c.isDigit = true) (cs : List Char) : StartsOperand (c :: cs) :=
  startsOperand_wordChar (isWordChar_of_isDigit digit) (wordAt_digit digit cs) (by decide)

/-- Quotes, brackets and braces. -/
theorem startsOperand_opening (opens : c ∈ ['"', '[', '\x7b']) (cs : List Char) : StartsOperand (c :: cs) := by
  have skips : Skips (c :: cs) (c :: cs) ∧ WordAt (c :: cs) none ∧
      sign? (c :: cs) ∈ [none, some "\x7b", some "["] := by
    simp only [List.mem_cons, List.not_mem_nil, or_false] at opens
    rcases opens with rfl | rfl | rfl
    · exact ⟨skips_cons (by decide) cs, wordAt_none (by decide) cs, .head _⟩
    · exact ⟨skips_cons (by decide) cs, wordAt_none (by decide) cs, .tail _ (.tail _ (.head _))⟩
    · exact ⟨skips_cons (by decide) cs, wordAt_none (by decide) cs, .tail _ (.head _)⟩
  exact ⟨skips.1, skips.2.2, none, skips.2.1, by decide⟩

/-- A text that is a word and none that stands in front of an operand. -/
def IsName (word : String) : Prop := word.toList.all isWordChar = true ∧ word.toList.head?.any (fun c => !c.isDigit) = true ∧
  some word ∉ [some "new", some "typeof", some "void", some "delete", some "await", some "yield"]

instance (word : String) : Decidable (IsName word) := inferInstanceAs (Decidable (_ ∧ _ ∧ _))

section Names

variable {word : String}

theorem IsName.chars (name : IsName word) : (∀ c ∈ word.toList, isWordChar c = true) ∧
    ∃ c more, word.toList = c :: more ∧ c.isDigit = false := by
  obtain ⟨chars, first, -⟩ := name
  refine ⟨List.all_eq_true.mp chars, ?_⟩
  cases letters : word.toList with
  | nil =>
    rw [letters] at first
    cases first
  | cons c more =>
    rw [letters] at first
    exact ⟨c, more, rfl, by simpa using first⟩

theorem IsName.wordAt (name : IsName word) (ends : EndsWord behind) : WordAt (word.toList ++ behind) (some word) := by
  have wordAt := wordAt_append name.chars.1 name.chars.2 ends
  rwa [String.ofList_toList] at wordAt

theorem IsName.starts (name : IsName word) (ends : EndsWord behind) : StartsOperand (word.toList ++ behind) := by
  have wordAt := name.wordAt ends
  obtain ⟨chars, c, more, letters, -⟩ := name.chars
  rw [letters] at wordAt ⊢
  exact startsOperand_wordChar (chars c (letters ▸ List.mem_cons_self)) wordAt name.2.2

/-- A name that no arrow follows is no function. -/
theorem fails_arrowFunction (skips : Skips cs tok) (wordAt : WordAt tok (some word))
    (noAsync : word ≠ "async") (noOperand : operandWords.contains word = false) (noSign : sign? tok = none)
    (parts : tok = word.toList ++ behind) (behindSkips : Skips behind next) (noArrow : sign? next ≠ some "=>") :
    Fails total (arrowFunction rules tail plain) cs := by
  have name : Reads total (do
      let name ← anyWord .identifier
      if operandWords.contains name.text then failure
      pure [name.as .parameter]) tok behind fun _ => True := by
    refine (reads_anyWord skips.token .identifier wordAt parts).bind ?_
    rintro _ ⟨start, rfl⟩
    dsimp only
    rw [String.ofList_toList, noOperand, if_neg Bool.false_ne_true]
    exact .pure _ trivial
  unfold arrowFunction
  refine (reads_begin skips).bindFails fun start _ => ?_
  dsimp only
  refine Fails.orElse ?_ ?_
  · rw [if_pos rfl]
    exact (fails_keyword skips.token wordAt (fun same => noAsync (Option.some.inj same))).bind _
  · rw [if_neg Bool.false_ne_true]
    have head : Reads total (do
        if (← nextSign).isSome then signature rules (!plain)
        else do
          let name ← anyWord .identifier
          if operandWords.contains name.text then failure
          pure [name.as .parameter]) tok behind fun _ => True := by
      refine (reads_nextSign skips.token).andThen ?_
      rw [noSign]
      exact name
    exact head.bindFails fun _ _ => (fails_sign behindSkips noArrow).bind _

/-- The words that are literals. -/
def wordLiterals : List (String × Kind) := [("null", .nullLiteral), ("true", .trueLiteral), ("false", .falseLiteral)]

theorem isName_of_literal {kind : Kind} (literal : (word, kind) ∈ wordLiterals) : IsName word := by
  simp only [wordLiterals, List.mem_cons, Prod.mk.injEq, List.not_mem_nil, or_false] at literal
  rcases literal with ⟨rfl, -⟩ | ⟨rfl, -⟩ | ⟨rfl, -⟩ <;> decide

theorem reads_wordLiteral {kind : Kind} (literal : (word, kind) ∈ wordLiterals) (ends : EndsWord behind) :
    Reads total (primary rules tail plain) (word.toList ++ behind) behind (IsLeaf kind word.toList) := by
  have name := isName_of_literal literal
  have wordAt := name.wordAt ends
  have skips := (name.starts ends).skips
  unfold primary
  refine (reads_peek skips).bind fun cursor stands => (reads_wordAt wordAt stands).andThen ?_
  simp only [wordLiterals, List.mem_cons, Prod.mk.injEq, List.not_mem_nil, or_false] at literal
  rcases literal with ⟨rfl, rfl⟩ | ⟨rfl, rfl⟩ | ⟨rfl, rfl⟩
  all_goals exact reads_wordNode skips _ wordAt rfl

/-- The names in a printed script that stand for no literal. -/
def freeNames : List String := ["NaN", "Infinity", "module"]

theorem isName_of_free (free : word ∈ freeNames) :
    IsName word ∧ word ≠ "async" ∧ operandWords.contains word = false := by
  simp only [freeNames, List.mem_cons, List.not_mem_nil, or_false] at free
  rcases free with rfl | rfl | rfl <;> decide

theorem reads_identifier (free : word ∈ freeNames) (ends : EndsWord behind) (behindSkips : Skips behind next)
    (noArrow : sign? next ≠ some "=>") :
    Reads total (primary rules tail plain) (word.toList ++ behind) behind (IsLeaf .identifier word.toList) := by
  obtain ⟨name, noAsync, noOperand⟩ := isName_of_free free
  have wordAt := name.wordAt ends
  have skips := (name.starts ends).skips
  have noSign : sign? (word.toList ++ behind) = none := by
    simp only [freeNames, List.mem_cons, List.not_mem_nil, or_false] at free
    rcases free with rfl | rfl | rfl <;> rfl
  have noFunction : Fails total (arrowFunction rules tail plain) (word.toList ++ behind) :=
    fails_arrowFunction skips wordAt noAsync noOperand noSign rfl behindSkips noArrow
  have reads : Reads total (arrowFunction rules tail plain <|> anyWord .identifier) (word.toList ++ behind) behind
      (IsLeaf .identifier word.toList) :=
    noFunction.orElseReads (reads_anyWord skips .identifier wordAt rfl)
  unfold primary
  refine (reads_peek skips).bind fun cursor stands => (reads_wordAt wordAt stands).andThen ?_
  simp only [freeNames, List.mem_cons, List.not_mem_nil, or_false] at free
  rcases free with rfl | rfl | rfl
  all_goals exact reads

end Names

theorem text_numeral {numeral : Numeral} (valid : numeral.Valid) :
    ∃ first more, numeral.text = first :: more ∧ first.isDigit = true := by
  obtain ⟨first, more, whole, digit, -⟩ := valid.first
  exact ⟨first, _, by rw [Numeral.text, whole]; rfl, digit⟩

theorem startsOperand_numeral {numeral : Numeral} (valid : numeral.Valid) (behind : List Char) :
    StartsOperand (numeral.text ++ behind) := by
  obtain ⟨first, more, text, digit⟩ := text_numeral valid
  rw [text]
  exact startsOperand_digit digit _

theorem reads_numeral {numeral : Numeral} (valid : numeral.Valid) (delimited : Delimited behind) :
    Reads total (primary rules tail plain) (numeral.text ++ behind) behind (IsLeaf .numberLiteral numeral.text) := by
  have skips := (startsOperand_numeral valid behind).skips
  have reads : Reads total numberLiteral (numeral.text ++ behind) behind (IsLeaf .numberLiteral numeral.text) :=
    reads_numberLiteral valid delimited skips
  obtain ⟨first, more, text, digit⟩ := text_numeral valid
  have other {mark : Char} (noDigit : mark.isDigit = false) : first ≠ mark := by
    rintro rfl
    exact absurd digit (by rw [noDigit]; decide)
  rw [text, List.cons_append] at skips reads ⊢
  unfold primary
  refine (reads_peek skips).bind fun cursor stands => (reads_wordAt (wordAt_digit digit _) stands).andThen ?_
  rw [stands.rest]
  dsimp only
  rw [if_neg (other (by decide)), if_neg (other (by decide)), if_neg (other (by decide)),
    if_neg (by simpa using ⟨other (by decide), other (by decide)⟩), if_neg (other (by decide)),
    if_neg (other (by decide)), if_pos digit]
  exact reads

theorem quoted_append (text : String) (behind : List Char) :
    (quote text).toList ++ behind = '"' :: (text.toList.flatMap quotedChar ++ ['"'] ++ behind) := by
  rw [toList_quote]
  rfl

theorem startsOperand_quoted (text : String) (behind : List Char) :
    StartsOperand ((quote text).toList ++ behind) := by
  rw [quoted_append]
  exact startsOperand_opening (by decide) _

theorem wordAt_quoted (text : String) (behind : List Char) : WordAt ((quote text).toList ++ behind) none := by
  rw [quoted_append]
  exact wordAt_none (by decide) _

theorem reads_quoted (text : String) (behind : List Char) :
    Reads total (primary rules tail plain) ((quote text).toList ++ behind) behind (IsString text) := by
  have skips := (startsOperand_quoted text behind).skips
  have reads : Reads total stringLiteral ((quote text).toList ++ behind) behind (IsString text) :=
    reads_stringLiteral skips
  unfold primary
  refine (reads_peek skips).bind fun cursor stands => (reads_wordAt (wordAt_quoted text behind) stands).andThen ?_
  rw [stands.rest]
  rw [quoted_append] at reads ⊢
  exact reads

end Operands

section Leaves

/-- The start of an item that is not spread into a list. -/
structure StartsItem (tok : List Char) : Prop where
  skips : Skips tok tok
  noSpread : sign? tok ≠ some "..."

/-- The text of a value in a list or an object is one expression of which the value is read. -/
structure ReadsAsScript (indent : String) (value : Value) : Prop where
  starts : ∀ depth behind, Follows behind → StartsItem ((renderAt (.lines indent) depth value).toList ++ behind)
  reads : ∀ depth steps total cs behind, (renderAt (.lines indent) depth value).length < steps → Follows behind →
    Skips cs ((renderAt (.lines indent) depth value).toList ++ behind) →
    Reads total (goal steps (.expression false false)) cs behind (Holds value)

variable {indent : String}

theorem startsItem_of_operand (starts : StartsOperand tok) : StartsItem tok := by
  refine ⟨starts.skips, fun same => ?_⟩
  have sign := starts.sign
  rw [same] at sign
  revert sign
  decide

/-- An operand alone. -/
theorem reads_operand {value : Value} {steps : ℕ} {found : Node → Prop} (holds : ∀ node, found node → Holds value node)
    (starts : StartsOperand tok) (follows : Follows behind) (skips : Skips cs tok)
    (operand : Reads total (primary (goal steps) false false) tok behind found) :
    Reads total (goal (steps + 1) (.expression false false)) cs behind (Holds value) := by
  obtain ⟨next, ends⟩ := follows.ends
  exact reads_expression starts skips ends (fun _ known => known.noArrow) (operand.weaken holds)

/-- A minus sign in front of a literal. -/
theorem reads_minus {value : Value} {kind : Kind} {text : List Char} {steps : ℕ} (simple : kind ∈ leafKinds)
    (means : (leafLiteral? kind text).bind negated? = legible? value)
    (dash : sign? ('-' :: (text ++ behind)) = some "-") (starts : StartsOperand (text ++ behind))
    (follows : Follows behind) (skips : Skips cs ('-' :: (text ++ behind)))
    (operand : Reads total (primary (goal steps) false false) (text ++ behind) behind (IsLeaf kind text)) :
    Reads total (goal (steps + 2) (.expression false false)) cs behind (Holds value) := by
  obtain ⟨next, ends⟩ := follows.ends
  have noArrow : ∀ node, IsLeaf kind text node → node.kind ≠ .arrowFunction := by
    rintro _ ⟨start, rfl⟩ rfl
    revert simple
    decide
  refine (reads_negated starts dash skips ends noArrow operand).weaken ?_
  rintro _ ⟨start, child, leaf, rfl⟩
  rw [List.length_cons, List.length_append, Nat.add_right_comm, Nat.add_sub_cancel, List.take_succ_cons, List.take_left]
  exact holds_negated simple means leaf text start

theorem sign?_minus (wordChar : isWordChar c = true) (rest : List Char) : sign? ('-' :: c :: rest) = some "-" := by
  have dash : '-' ≠ c := (ne_of_wordChar wordChar (by decide)).symm
  have equal : '=' ≠ c := (ne_of_wordChar wordChar (by decide)).symm
  simp [sign?, signs, List.isPrefixOf, dash, equal]

theorem skips_minus (wordChar : isWordChar c = true) (rest : List Char) : Skips ('-' :: c :: rest) ('-' :: c :: rest) := by
  have dash : '-' ≠ c := (ne_of_wordChar wordChar (by decide)).symm
  refine .here (by rintro _ ⟨⟩; rfl) ?_
  simp [commentAt?, commentLength?, markupCommentLength?, List.isPrefixOf, dash]

theorem readsAsScript_text (text : String) : ReadsAsScript indent (.text text) where
  starts := by
    intro depth behind _
    rw [renderAt]
    exact startsItem_of_operand (startsOperand_quoted text behind)
  reads := by
    intro depth steps total cs behind enough follows skips
    rw [renderAt] at enough skips
    obtain ⟨steps, rfl⟩ := Nat.exists_eq_succ_of_ne_zero (Nat.ne_zero_of_lt enough)
    exact reads_operand (fun _ => holds_string) (startsOperand_quoted text behind) follows skips
      (reads_quoted text behind)

/-- A value whose text is a literal, or a minus sign and a literal. -/
theorem readsAsScript_leaf {value : Value} {kind : Kind} {text : List Char} (simple : kind ∈ leafKinds)
    (negative : Bool)
    (shown : ∀ depth, (renderAt (.lines indent) depth value).toList = (if negative then ['-'] else []) ++ text)
    (means : (leafLiteral? kind text).bind (if negative then negated? else fun literal => some (ofLiteral literal)) =
      legible? value)
    (first : text.head?.any isWordChar = true)
    (starts : ∀ behind, Follows behind → StartsOperand (text ++ behind))
    (operand : ∀ rules total behind, Follows behind →
      Reads total (primary rules false false) (text ++ behind) behind (IsLeaf kind text)) :
    ReadsAsScript indent value := by
  obtain ⟨c, more, rfl, wordChar⟩ : ∃ c more, text = c :: more ∧ isWordChar c = true := by
    cases text with
    | nil => cases first
    | cons c more => exact ⟨c, more, rfl, first⟩
  constructor
  · intro depth behind follows
    rw [shown]
    cases negative with
    | false => exact startsItem_of_operand (starts behind follows)
    | true => exact ⟨skips_minus wordChar _, by rw [if_pos rfl]; exact (sign?_minus wordChar _).trans_ne (by decide)⟩
  · intro depth steps total cs behind enough follows skips
    rw [← String.length_toList, shown] at enough
    rw [shown] at skips
    cases negative with
    | false =>
      obtain ⟨steps, rfl⟩ := Nat.exists_eq_succ_of_ne_zero (Nat.ne_zero_of_lt enough)
      refine reads_operand (fun node leaf => holds_leaf simple ?_ leaf) (starts behind follows) follows skips
        (operand _ total behind follows)
      rw [← means, Option.map_eq_bind]
      rfl
    | true =>
      obtain ⟨steps, rfl⟩ := Nat.exists_eq_add_of_le' (Nat.lt_of_le_of_lt (Nat.le_add_left 1 _) enough)
      exact reads_minus simple means (sign?_minus wordChar _) (starts behind follows) follows skips
        (operand _ total behind follows)

end Leaves

section Literals

variable {indent : String}

theorem readsAsScript_word {value : Value} {word : String} {kind : Kind} (literal : (word, kind) ∈ wordLiterals)
    (shown : ∀ depth, renderAt (.lines indent) depth value = word)
    (means : (leafLiteral? kind word.toList).map ofLiteral = legible? value) : ReadsAsScript indent value := by
  have simple : kind ∈ leafKinds ∧ word.toList.head?.any isWordChar = true := by
    simp only [wordLiterals, List.mem_cons, Prod.mk.injEq, List.not_mem_nil, or_false] at literal
    rcases literal with ⟨rfl, rfl⟩ | ⟨rfl, rfl⟩ | ⟨rfl, rfl⟩ <;> decide
  refine readsAsScript_leaf simple.1 false (fun depth => ?_) ?_ simple.2
    (fun behind follows => (isName_of_literal literal).starts follows.endsWord)
    fun rules total behind follows => reads_wordLiteral literal follows.endsWord
  · rw [shown]
    rfl
  · rw [← means, Option.map_eq_bind]
    rfl

theorem readsAsScript_null : ReadsAsScript indent .null := by
  refine readsAsScript_word (.head _) (fun depth => ?_) rfl
  rw [renderAt]

theorem readsAsScript_truth (truth : Bool) : ReadsAsScript indent (.truth truth) := by
  cases truth with
  | false =>
    refine readsAsScript_word (.tail _ (.tail _ (.head _))) (fun depth => ?_) rfl
    rw [renderAt, if_neg Bool.false_ne_true]
  | true =>
    refine readsAsScript_word (.tail _ (.head _)) (fun depth => ?_) rfl
    rw [renderAt, if_pos rfl]

theorem head_numeral {numeral : Numeral} (valid : numeral.Valid) : numeral.text.head?.any isWordChar = true := by
  obtain ⟨first, more, text, digit⟩ := text_numeral valid
  rw [text]
  exact isWordChar_of_isDigit digit

theorem readsAsScript_numeral {value : Value} {numeral : Numeral} (valid : numeral.Valid) (negative : Bool)
    (shown : ∀ depth, (renderAt (.lines indent) depth value).toList = (if negative then ['-'] else []) ++ numeral.text)
    (means : (readNumber? (String.ofList numeral.text)).bind
      (if negative then negated? else fun literal => some (ofLiteral literal)) = legible? value) :
    ReadsAsScript indent value := by
  have simple : .numberLiteral ∈ leafKinds := by decide
  exact readsAsScript_leaf simple negative shown means (head_numeral valid) (fun _ _ => startsOperand_numeral valid _)
    fun _ _ _ follows => reads_numeral valid follows.delimited

theorem readsAsScript_whole (number : ℤ) : ReadsAsScript indent (.whole number) := by
  have valid : (⟨digitsOf number.natAbs, [], none⟩ : Numeral).Valid :=
    valid_of_powerless (whole_digitsOf number.natAbs) (List.forall_mem_nil _)
  have text : (⟨digitsOf number.natAbs, [], none⟩ : Numeral).text = digitsOf number.natAbs := List.append_nil _
  refine readsAsScript_numeral valid (number < 0) (fun depth => ?_) ?_
  · rw [renderAt, toList_toString, text]
    simp
  · rw [text, readNumber?_whole, legible?]
    split
    · rfl
    · by_cases below : number < 0
      · simp [below, negated?, abs_of_neg below]
      · simp [below, ofLiteral, abs_of_nonneg (not_lt.mp below)]

/-- A name in the place of a number is no literal. -/
theorem readsAsScript_notFinite {value : Binary64} (word : String) (known : word ∈ ["NaN", "Infinity"])
    (negative : Bool) (shown : value.text.toList = (if negative then ['-'] else []) ++ word.toList)
    (lost : legible? (.real value) = none) : ReadsAsScript indent (.real value) := by
  have free : word ∈ freeNames := List.mem_append_left ["module"] known
  have simple : .identifier ∈ leafKinds := by decide
  have written (depth : ℕ) : (renderAt (.lines indent) depth (.real value)).toList =
      (if negative then ['-'] else []) ++ word.toList := by
    rw [renderAt, shown]
  refine readsAsScript_leaf simple negative written ?_ ?_ (fun _ follows => (isName_of_free free).1.starts follows.endsWord) ?_
  · rw [lost]
    rfl
  · simp only [List.mem_cons, List.not_mem_nil, or_false] at known
    rcases known with rfl | rfl <;> decide
  · intro rules total behind follows
    obtain ⟨next, ends⟩ := follows.ends
    refine reads_identifier free follows.endsWord ends.skips ?_
    rcases ends.cases with same | same | same | same
    all_goals
      rw [same]
      decide

theorem readsAsScript_real {number : Binary64} (canonical : number.Canonical) : ReadsAsScript indent (.real number) := by
  cases number with
  | undefined => exact readsAsScript_notFinite "NaN" (by decide) false rfl rfl
  | infinite negative =>
    refine readsAsScript_notFinite "Infinity" (by decide) negative ?_ rfl
    cases negative <;> rfl
  | finite negative significand exponent =>
    have written : ∃ numeral : Numeral, numeral.Valid ∧ numeral.IsReal ∧
        (Binary64.finite negative significand exponent).text.toList = (if negative then ['-'] else []) ++ numeral.text ∧
        numeral.value = .finite false significand exponent := by
      by_cases none : significand = 0
      · subst none
        obtain rfl : exponent = leastExponent := exponent_of_zero canonical
        refine ⟨⟨['0'], ['0'], none⟩, valid_of_powerless (.inl rfl) (List.forall_mem_singleton.mpr rfl),
          .inl (List.cons_ne_nil _ _), ?_, rfl⟩
        cases negative <;> rfl
      · obtain ⟨positive, found⟩ := decimal_shortest canonical none
        obtain ⟨numeral, valid, real, text, value⟩ :=
          exists_numeral_decimalText positive (shortest significand exponent).2
        refine ⟨numeral, valid, real, ?_, value.trans found⟩
        cases negative <;> simp [Binary64.text, none, text]
    obtain ⟨numeral, valid, real, shown, value⟩ := written
    refine readsAsScript_numeral valid negative (fun depth => ?_) ?_
    · rw [renderAt, shown]
    · rw [readNumber?_real valid real, value, legible?]
      cases negative <;> rfl

end Literals

end Phrasebook.Proofs.ScriptValues
