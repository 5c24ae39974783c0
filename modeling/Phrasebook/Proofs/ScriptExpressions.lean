import Phrasebook.Proofs.ScriptTokens

/-! Expressions that are one operand: what stands in front of it and behind it belongs to no operator, no call and no
assignment. -/

namespace Phrasebook.Proofs.ScriptExpressions

open Syntax Parse ParseSteps ScriptTokens

variable {rules : Rules} {tail plain : Bool} {total : Nat} {cs tok behind next : List Char} {found : Node → Prop}

/-- The start of an operand that is no sign or word for an operator. -/
structure StartsOperand (tok : List Char) : Prop where
  skips : Skips tok tok
  sign : sign? tok ∈ [none, some "\x7b", some "["]
  word : ∃ word, WordAt tok word ∧
    word ∉ [some "new", some "typeof", some "void", some "delete", some "await", some "yield"]

/-- What no suffix and no assignment of an operand starts with. Where a statement may end, it does not end in front of
it. -/
structure EndsOperand (tail : Bool) (behind next : List Char) : Prop where
  skips : Skips behind next
  sign : sign? next ∈ [none, some ",", some "]", some "\x7d", some ";"]
  noTemplate : next.head? ≠ some '`'
  goesOn : tail = true → ∀ limit place, endsHere limit .expression ⟨behind, place⟩ = false

/-- What no operator starts with either. -/
structure EndsExpression (tail : Bool) (behind next : List Char) : Prop extends EndsOperand tail behind next where
  closing : sign? next ≠ none
  noWord : WordAt next none

theorem EndsOperand.cases (ends : EndsOperand tail behind next) :
    sign? next = none ∨ sign? next = some "," ∨ sign? next = some "]" ∨ sign? next = some "\x7d" ∨
      sign? next = some ";" := by
  simpa using ends.sign

theorem EndsExpression.cases (ends : EndsExpression tail behind next) :
    sign? next = some "," ∨ sign? next = some "]" ∨ sign? next = some "\x7d" ∨ sign? next = some ";" :=
  ends.toEndsOperand.cases.resolve_left ends.closing

theorem reads_closes (goesOn : tail = true → ∀ limit place, endsHere limit .expression ⟨behind, place⟩ = false) :
    Reads total (closes tail) behind behind (· = false) := by
  refine Reads.get fun reading ready => .pure _ ?_
  cases tail with
  | false => rfl
  | true =>
    have rest := ready.cursor.rest
    generalize reading.cursor = cursor at rest
    obtain ⟨_, place⟩ := cursor
    subst rest
    exact goesOn rfl reading.limit place

theorem reads_suffixes (ends : EndsOperand tail behind next) (start : Cursor) (target : Node) (steps : Nat) :
    Reads total (suffixes rules tail start target steps) behind behind (· = target) := by
  cases steps with
  | zero => exact .pure target rfl
  | succ steps =>
    unfold suffixes
    refine (reads_closes ends.goesOn).andThen ?_
    rw [if_neg Bool.false_ne_true]
    refine (reads_nextSign ends.skips).andThen ?_
    rcases ends.cases with none | same | same | same | same
    · rw [none]
      refine (reads_peek ends.skips).bind fun cursor stands => ?_
      rw [stands.rest, if_neg (by simpa using ends.noTemplate)]
      exact .pure target rfl
    all_goals
      rw [same]
      exact .pure target rfl

theorem reads_assignmentOrOperand (starts : StartsOperand tok) (skips : Skips cs tok)
    (ends : EndsOperand tail behind next) (noArrow : ∀ node, found node → node.kind ≠ .arrowFunction)
    (operand : Reads total (primary rules tail plain) tok behind found) :
    Reads total (assignmentOrOperand rules tail plain) cs behind found := by
  obtain ⟨word, wordAt, noWord⟩ := starts.word
  have noNew : word ≠ some "new" := fun same => noWord (same ▸ List.mem_cons_self)
  unfold assignmentOrOperand
  refine (reads_begin skips).bind fun start _ => ?_
  refine (reads_seesWord skips.token wordAt "new").andThen ?_
  rw [beq_eq_false_iff_ne.mpr noNew, if_neg Bool.false_ne_true]
  refine operand.bind fun first known => ?_
  dsimp only
  rw [decide_eq_false (noArrow first known), Bool.false_and, if_neg Bool.false_ne_true]
  refine Reads.get fun _ _ => (reads_suffixes ends start first _).andThen ?_
  refine (reads_closes ends.goesOn).andThen ?_
  split
  next =>
    refine (reads_nextSign ends.skips).andThen ?_
    rcases ends.cases with same | same | same | same | same
    all_goals
      rw [same]
      exact .pure first known
  next => exact .pure first known

theorem reads_unary (starts : StartsOperand tok) (skips : Skips cs tok)
    (ends : EndsOperand tail behind next) (noArrow : ∀ node, found node → node.kind ≠ .arrowFunction)
    (operand : Reads total (primary rules tail plain) tok behind found) :
    Reads total (unary rules tail plain) cs behind found := by
  obtain ⟨word, wordAt, noWord⟩ := starts.word
  have reads : Reads total (assignmentOrOperand rules tail plain) cs behind found :=
    reads_assignmentOrOperand starts skips ends noArrow operand
  unfold unary
  dsimp only
  refine (reads_nextSign skips).andThen ?_
  have sign := starts.sign
  simp only [List.mem_cons, List.not_mem_nil, or_false] at sign
  rcases sign with none | brace | bracket
  · rw [none]
    refine (reads_nextWord skips wordAt).andThen ?_
    simp only [List.mem_cons, List.not_mem_nil, or_false, not_or] at noWord
    obtain ⟨-, noTypeof, noVoid, noDelete, noAwait, -⟩ := noWord
    split
    next same => exact absurd rfl noTypeof
    next same => exact absurd rfl noVoid
    next same => exact absurd rfl noDelete
    next same => exact absurd rfl noAwait
    next => exact reads
  · rw [brace]
    exact reads
  · rw [bracket]
    exact reads

theorem reads_nextOperator (ends : EndsExpression tail behind next) :
    Reads total nextOperator behind behind (· = none) := by
  refine (reads_nextSign ends.skips).andThen ?_
  rcases ends.cases with same | same | same | same
  all_goals
    rw [same]
    exact .pure none rfl

/-- No operator joins an operand with what follows it. -/
theorem reads_operators (ends : EndsExpression tail behind next) (level : Nat) (start : Cursor) (left : Node)
    (steps : Nat) : Reads total (operators rules tail plain level start left steps) behind behind (· = left) := by
  cases steps with
  | zero => exact .pure left rfl
  | succ steps =>
    have noCast : (none == some "as" || none == some "satisfies") = false := by decide
    unfold operators
    refine (reads_closes ends.goesOn).andThen ?_
    rw [if_neg Bool.false_ne_true]
    refine (reads_nextWord ends.skips ends.noWord).andThen ?_
    rw [noCast, Bool.and_false, if_neg Bool.false_ne_true]
    exact (reads_nextOperator ends).andThen (.pure left rfl)

theorem reads_operandRule {level : Nat} (low : level < 14) (ends : EndsExpression tail behind next)
    (skips : Skips cs tok) (reads : Reads total (unary rules tail plain) tok behind found) :
    Reads total (operandRule rules tail plain level) cs behind found := by
  unfold operandRule
  refine (reads_begin skips).bind fun start _ => ?_
  rw [if_neg (Nat.not_le_of_lt low)]
  refine reads.bind fun first known => Reads.get fun reading _ => ?_
  refine (reads_operators ends level start first _).weaken ?_
  rintro _ rfl
  exact known

theorem sees_question (ends : EndsOperand tail behind next) : (sign? next == some "?") = false := by
  rcases ends.cases with same | same | same | same | same
  all_goals
    rw [same]
    rfl

theorem reads_expressionRule {word : Option String} (skips : Skips cs tok) (wordAt : WordAt tok word)
    (noYield : word ≠ some "yield") (ends : EndsExpression tail behind next)
    (reads : Reads total (operandRule rules tail plain 0) tok behind found) :
    Reads total (expressionRule rules tail plain) cs behind found := by
  unfold expressionRule
  refine (reads_seesWord skips wordAt "yield").andThen ?_
  rw [beq_eq_false_iff_ne.mpr noYield, if_neg Bool.false_ne_true]
  refine (reads_begin skips).bind fun start _ => reads.bind fun value known => ?_
  refine (reads_sees ends.skips "?").andThen ((reads_closes ends.goesOn).andThen ?_)
  rw [sees_question ends.toEndsOperand, Bool.false_and, if_neg Bool.false_ne_true]
  exact .pure value known

/-- An expression that is an operand alone. -/
theorem reads_expression (starts : StartsOperand tok) (skips : Skips cs tok) (ends : EndsExpression tail behind next)
    (noArrow : ∀ node, found node → node.kind ≠ .arrowFunction)
    (operand : Reads total (primary rules tail plain) tok behind found) :
    Reads total (expressionRule rules tail plain) cs behind found := by
  obtain ⟨word, wordAt, noWord⟩ := starts.word
  have noYield : word ≠ some "yield" := by
    rintro rfl
    exact noWord (by decide)
  refine reads_expressionRule skips wordAt noYield ends ?_
  refine reads_operandRule (by decide) ends skips.token ?_
  exact reads_unary starts skips.token ends.toEndsOperand noArrow operand

/-- Where no operand starts, no expression does. -/
theorem fails_expression (skips : Skips cs tok) (noWord : WordAt tok none)
    (noSign : sign? tok = none ∨ sign? tok = some "]")
    (noPrimary : ∀ rules, Fails total (primary rules tail plain) tok) (steps : Nat) :
    Fails total (goal steps (.expression tail plain)) cs := by
  cases steps with
  | zero => exact fails_failure
  | succ steps =>
    have tokSkips := skips.token
    have noOperand : Fails total (assignmentOrOperand (goal steps) tail plain) tok := by
      refine (reads_begin tokSkips).bindFails fun start _ => (reads_seesWord tokSkips noWord "new").thenFails ?_
      exact (noPrimary (goal steps)).bind _
    have noUnary : Fails total (unary (goal steps) tail plain) tok := by
      refine (reads_nextSign tokSkips).thenFails ?_
      rcases noSign with same | same
      · rw [same]
        exact (reads_nextWord tokSkips noWord).thenFails noOperand
      · rw [same]
        exact noOperand
    refine (reads_seesWord skips noWord "yield").thenFails ((reads_begin skips).bindFails fun start _ => ?_)
    refine Fails.bind ((reads_begin tokSkips).bindFails fun start _ => ?_) _
    exact noUnary.bind _

/-- A minus sign and an operand behind it. -/
theorem reads_negated {depth : Nat} {operand : List Char} (starts : StartsOperand operand)
    (dash : sign? ('-' :: operand) = some "-") (skips : Skips cs ('-' :: operand))
    (ends : EndsExpression tail behind next) (noArrow : ∀ node, found node → node.kind ≠ .arrowFunction)
    (reads : Reads total (primary (goal depth) tail plain) operand behind found) :
    Reads total (expressionRule (goal (depth + 1)) tail plain) cs behind fun node => ∃ start child, found child ∧
      node = ⟨.unaryExpression, none,
        String.ofList (('-' :: operand).take (('-' :: operand).length - behind.length)), start, [child]⟩ := by
  have noWord : WordAt ('-' :: operand) none := wordAt_none (by decide) operand
  have inner : Reads total (goal (depth + 1) (.operand tail plain 13)) operand behind found :=
    reads_operandRule (by decide) ends starts.skips (reads_unary starts starts.skips ends.toEndsOperand noArrow reads)
  have inside : Reads total (do
      sign "-"
      pure [← goal (depth + 1) (.operand tail plain 13)]) ('-' :: operand) behind
      fun children => ∃ child, found child ∧ children = [child] := by
    refine (reads_sign skips.token dash rfl).bind fun _ _ => inner.bind fun child known => ?_
    exact .pure _ ⟨child, known, rfl⟩
  refine reads_expressionRule skips noWord (by decide) ends (reads_operandRule (by decide) ends skips.token ?_)
  unfold unary
  dsimp only
  refine (reads_nextSign skips.token).andThen ?_
  rw [dash]
  refine (reads_node skips.token .unaryExpression inside).weaken ?_
  rintro _ ⟨start, _, ⟨child, known, rfl⟩, rfl⟩
  exact ⟨start, child, known, rfl⟩

end Phrasebook.Proofs.ScriptExpressions
