import Phrasebook.Proofs.ScriptContainers

/-! The statements that catalogs are written in: an object that is exported as it stands or as a constant, and one that
is assigned to the exports of a module. -/

namespace Phrasebook.Proofs.ScriptStatements

open Catalog Value ParseSteps ScriptContainers ScriptExpressions ScriptNodes ScriptTokens ScriptValues
open Syntax Parse

variable {rules : Rules} {total : ℕ} {cs tok behind next : List Char} {entries : Entries}

section Finding

/-- The first object in a tree is one of which entries are read, and every object in the tree is settled. -/
structure Finds (entries : Entries) (node : Node) : Prop where
  found : ∀ levels, node.size ≤ levels → ∃ object, firstObject? levels [node] = some object ∧
    entriesOf object = .ok (Table.ofList (legibleEntries entries))
  settled : node.isSettled = true
  kind : node.kind ∉ [.comment, .operator, .objectAssignmentPattern]

theorem size_pos (node : Node) : 0 < node.size := by
  cases node
  rw [Node.size]
  omega

theorem finds_object {node : Node} (isObject : IsObject entries node) (role : Option Role) :
    Finds entries { node with role } := by
  have settled := (holds_object isObject).settled
  obtain ⟨text, start, nodes, each, rfl⟩ := isObject
  refine ⟨fun levels enough => ?_, settled, by simp⟩
  obtain ⟨levels, rfl⟩ := Nat.exists_eq_succ_of_ne_zero (Nat.ne_zero_of_lt (Nat.lt_of_lt_of_le (size_pos _) enough))
  exact ⟨_, rfl, entriesOf_pairs each⟩

/-- The kinds of the nodes around a printed object. -/
def outerKinds : List Kind := [.program, .exportStatement, .expressionStatement, .assignmentExpression, .asExpression]

theorem firstObject?_outer {kind : Kind} {role : Option Role} {text : String} {start : Position} {children : List Node}
    (outer : kind ∈ outerKinds) (named : ∀ child ∈ children, child.kind ≠ .comment ∧ child.kind ≠ .operator)
    (levels : ℕ) : firstObject? (levels + 1) [⟨kind, role, text, start, children⟩] = firstObject? levels children := by
  have parts : Node.parts ⟨kind, role, text, start, children⟩ = children :=
    List.filter_eq_self.mpr fun child member => decide_eq_true (named child member)
  have other : (decide (kind = .object)) = false := by
    simp only [outerKinds, List.mem_cons, List.not_mem_nil, or_false] at outer
    rcases outer with rfl | rfl | rfl | rfl | rfl <;> decide
  simp only [firstObject?, List.find?_cons, other, List.find?_nil, List.isEmpty_cons, Bool.false_eq_true, if_false,
    List.flatMap_cons, List.flatMap_nil, List.append_nil, parts]

theorem Finds.named {node : Node} (finds : Finds entries node) :
    (node.kind ≠ .comment ∧ node.kind ≠ .operator) ∧ node.kind ≠ .objectAssignmentPattern := by
  have kind := finds.kind
  simp only [List.mem_cons, List.not_mem_nil, or_false, not_or] at kind
  exact ⟨⟨kind.1, kind.2.1⟩, kind.2.2⟩

/-- The node above a node, around a printed object. -/
theorem finds_above {kind : Kind} {text : String} {start : Position} {child : Node} (outer : kind ∈ outerKinds)
    (finds : Finds entries child) (role : Option Role) : Finds entries ⟨kind, role, text, start, [child]⟩ where
  found := by
    intro levels enough
    have smaller : child.size < Node.size ⟨kind, role, text, start, [child]⟩ :=
      Node.size_lt_of_mem_children (List.mem_singleton.mpr rfl)
    obtain ⟨levels, rfl⟩ := Nat.exists_eq_succ_of_ne_zero (Nat.ne_zero_of_lt (Nat.lt_of_lt_of_le smaller enough))
    rw [firstObject?_outer outer (List.forall_mem_singleton.mpr finds.named.1)]
    exact finds.found levels (Nat.le_of_lt_succ (Nat.lt_of_lt_of_le smaller enough))
  settled := settled_of_children (List.forall_mem_singleton.mpr ⟨finds.named.2, finds.settled⟩)
  kind := by
    simp only [outerKinds, List.mem_cons, List.not_mem_nil, or_false] at outer
    rcases outer with rfl | rfl | rfl | rfl | rfl <;> simp

/-- An assignment of an object to a member. -/
theorem finds_assignment {text : String} {start : Position} {target object : Node} (isObject : IsObject entries object)
    (member : target.kind = .memberExpression) (settled : target.isSettled = true) :
    Finds entries ⟨.assignmentExpression, none, text, start, [target, object.as .right]⟩ := by
  have right : Finds entries (object.as .right) := finds_object isObject (some .right)
  have kinds : (target.kind ≠ .comment ∧ target.kind ≠ .operator) ∧ target.kind ≠ .objectAssignmentPattern ∧
      target.kind ≠ .object := by
    rw [member]
    decide
  refine ⟨fun levels enough => ?_, ?_, by simp⟩
  · have smaller : (object.as .right).size < Node.size ⟨.assignmentExpression, none, text, start, [target, object.as .right]⟩ :=
      Node.size_lt_of_mem_children (.tail _ (.head _))
    have positive := size_pos (object.as .right)
    obtain ⟨levels, rfl⟩ := Nat.exists_eq_add_of_le' (by omega : 2 ≤ levels)
    -- The search goes level by level, so the object is found before anything inside the target is looked at.
    rw [firstObject?_outer (by decide)
      (List.forall_mem_cons.mpr ⟨kinds.1, List.forall_mem_singleton.mpr right.named.1⟩)]
    obtain ⟨shown, place, nodes, each, rfl⟩ := isObject
    refine ⟨⟨.object, some .right, shown, place, nodes⟩, ?_, entriesOf_pairs each⟩
    simp [firstObject?, kinds.2.2, Node.as]
  · exact settled_of_children (List.forall_mem_cons.mpr
      ⟨⟨kinds.2.1, settled⟩, List.forall_mem_singleton.mpr ⟨right.named.2, right.settled⟩⟩)

end Finding

section Ends

/-- Where a semicolon follows, it ends the statement. -/
theorem reads_semicolon (rest : List Char) :
    Reads total (semicolon .expression) (';' :: rest) rest fun _ => True := by
  have skips : Skips (';' :: rest) (';' :: rest) := skips_cons (by decide) rest
  refine Reads.get fun reading ready => ?_
  unfold endingWithin
  refine Reads.get fun later ready => ?_
  have here := ready.cursor.rest
  have goesOn : endsHere later.limit .expression later.cursor = false := by
    rw [endsHere, here]
    rfl
  have noBlank : later.cursor.skip (later.cursor.rest.takeWhile isSeparator).length = later.cursor := by
    rw [here]
    rfl
  have noComment : commentLength? (';' :: rest) = none := rfl
  rw [goesOn, if_neg Bool.false_ne_true]
  dsimp only
  rw [noBlank, here, noComment]
  exact reads_sign skips rfl rfl

/-- The end of the statement behind an object. -/
theorem endsExpression_semicolon (rest : List Char) : EndsExpression true (';' :: rest) (';' :: rest) :=
  endsExpression_closing (skips_cons (by decide) rest) (by decide) fun _ _ _ => rfl

theorem wordAt_name (word : String) (name : IsName word) (ends : EndsWord behind) :
    WordAt (word.toList ++ behind) (some word) :=
  name.wordAt ends

/-- What stands between an object and the end of the statement, if it is a constant. -/
def constant : List Char := " as const".toList

theorem endsOperand_constant (rest : List Char) :
    EndsOperand true (constant ++ ';' :: rest) ("as const".toList ++ ';' :: rest) where
  skips := .separator rfl (skips_cons (by decide) _)
  sign := .head _
  noTemplate := nofun
  goesOn := fun _ _ _ => rfl

/-- Behind an operand, a type that says that it is a constant. -/
theorem reads_cast {start : Cursor} (stands : Stands total tok start) (child : Node) (rest : List Char) (limit : ℕ) :
    Reads total (operators rules true false 0 start child (limit + 1)) (constant ++ ';' :: rest) (';' :: rest)
      fun node => ∃ text place, node = ⟨.asExpression, none, text, place, [child]⟩ := by
  have ends := endsOperand_constant rest
  have asWord : WordAt ("as const".toList ++ ';' :: rest) (some "as") :=
    wordAt_name "as" (by decide) (endsWord_cons (by decide) _)
  have constWord : WordAt ("const".toList ++ ';' :: rest) (some "const") :=
    wordAt_name "const" (by decide) (endsWord_cons (by decide) _)
  have constSkips : Skips (' ' :: "const".toList ++ ';' :: rest) ("const".toList ++ ';' :: rest) :=
    .separator rfl (skips_cons (by decide) _)
  have isCast : (decide (0 = 0) && (some "as" == some "as" || some "as" == some "satisfies")) = true := by decide
  have words : Reads total (do
      keyword "const"
      pure []) (' ' :: "const".toList ++ ';' :: rest) (';' :: rest) (· = ([] : List Node)) :=
    (reads_keyword constSkips constWord rfl).bind fun _ _ => .pure [] rfl
  unfold operators
  refine (reads_closes ends.goesOn).andThen ?_
  rw [if_neg Bool.false_ne_true]
  refine (reads_nextWord ends.skips asWord).andThen ?_
  rw [if_pos isCast]
  refine (reads_keyword ends.skips asWord rfl).bind fun _ _ => ?_
  refine (words.orElse _).andThen ((reads_finish stands .asExpression [child]).andThen ?_)
  refine (reads_operators (endsExpression_semicolon rest) 0 start _ limit).weaken ?_
  rintro _ rfl
  exact ⟨_, _, rfl⟩

/-- An object behind which a type says that it is a constant. -/
theorem reads_constant {steps : ℕ} {found : Node → Prop} (starts : StartsOperand tok) (skips : Skips cs tok)
    (noArrow : ∀ node, found node → node.kind ≠ .arrowFunction) {rest : List Char}
    (operand : Reads total (primary (goal steps) true false) tok (constant ++ ';' :: rest) found) :
    Reads total (goal (steps + 1) (.expression true false)) cs (';' :: rest) fun node => ∃ text start child,
      found child ∧ node = ⟨.asExpression, none, text, start, [child]⟩ := by
  obtain ⟨word, wordAt, noWord⟩ := starts.word
  have noYield : word ≠ some "yield" := by
    rintro rfl
    exact noWord (by decide)
  have ends := endsOperand_constant rest
  have first : Reads total (unary (goal steps) true false) tok (constant ++ ';' :: rest) found :=
    reads_unary starts skips.token ends noArrow operand
  refine reads_expressionRule skips wordAt noYield (endsExpression_semicolon rest) ?_
  unfold operandRule
  refine (reads_begin skips.token).bind fun start stands => ?_
  rw [if_neg (by decide)]
  refine first.bind fun child known => Reads.get fun reading ready => ?_
  obtain ⟨limit, same⟩ := ready.exists_limit
  rw [same]
  refine (reads_cast stands child rest limit).weaken ?_
  rintro _ ⟨text, place, rfl⟩
  exact ⟨text, place, child, known, rfl⟩

end Ends

section Exports

/-- What starts with no word is no declaration. -/
theorem fails_declaration (skips : Skips cs tok) (noWord : WordAt tok none) (steps : ℕ) :
    Fails total (declarationRule rules steps) cs := by
  cases steps with
  | zero => exact fails_failure
  | succ steps =>
    unfold declarationRule
    exact (reads_nextWord skips noWord).thenFails fails_failure

theorem skips_export (value : List Char) :
    Skips ("export default ".toList ++ value) ("export default ".toList ++ value) :=
  skips_cons (by decide) _

theorem wordAt_export (value : List Char) : WordAt ("export default ".toList ++ value) (some "export") :=
  wordAt_name "export" (by decide) (endsWord_cons (by decide) _)

/-- The exported value of a module, which starts with a brace. -/
theorem reads_export {value : List Char} {found : Node → Prop} (starts : Skips value value) (noWord : WordAt value none)
    (brace : sign? value = some "\x7b")
    (reads : Reads total (rules (.expression true false)) (' ' :: value) (';' :: behind) found) :
    Reads total (exportStatement rules) ("export default ".toList ++ value) behind fun node =>
      ∃ text start child, found child ∧ node = ⟨.exportStatement, none, text, start, [child.as .value]⟩ := by
  have exportSkips := skips_export value
  have exportWord := wordAt_export value
  have defaultSkips : Skips (' ' :: ("default ".toList ++ value)) ("default ".toList ++ value) :=
    .separator rfl (skips_cons (by decide) _)
  have defaultWord : WordAt ("default ".toList ++ value) (some "default") :=
    wordAt_name "default" (by decide) (endsWord_cons (by decide) _)
  have valueSkips : Skips (' ' :: value) value := .separator rfl starts
  have noDecorator : Fails total (decorator rules) ("export default ".toList ++ value) :=
    fails_node exportSkips _ ((fails_sign exportSkips nofun).bind _)
  have noDeclaration : Fails total (do
      if ← sees "@" then pure [(← classRule rules .classDeclaration true).as .declaration]
      else pure [(← declarationRule rules (← get).limit).as .declaration]) (' ' :: value) := by
    refine (reads_sees valueSkips "@").thenFails ?_
    rw [brace]
    exact fails_get fun _ _ => (fails_declaration valueSkips noWord _).bind _
  unfold exportStatement
  refine (reads_begin exportSkips).bind fun start stands => (reads_many_none noDecorator).andThen ?_
  refine (reads_keyword exportSkips exportWord rfl).bind fun _ _ => ?_
  have noAll : Fails total (sign "*") (' ' :: ("default ".toList ++ value)) := fails_sign defaultSkips nofun
  have noList : Fails total (braced .exportClause .exportSpecifier) (' ' :: ("default ".toList ++ value)) :=
    fails_node defaultSkips _ ((fails_sign defaultSkips.token nofun).bind _)
  have noType : Fails total (keyword "type") (' ' :: ("default ".toList ++ value)) :=
    fails_keyword defaultSkips defaultWord (by decide)
  refine @Reads.bind _ _ total _ behind behind _ _ (fun nodes => ∃ child, found child ∧ nodes = [child.as .value]) _ ?_ ?_
  · refine Fails.orElseReads (Fails.bind ?_ _) (Reads.orElse ?_ _)
    · exact (noAll.bind _).orElse ((noList.bind _).orElse (noType.bind _))
    refine (reads_keyword defaultSkips defaultWord rfl).bind fun _ _ => noDeclaration.orElseReads ?_
    refine reads.bind fun child known => (reads_semicolon behind).bind fun _ _ => ?_
    exact .pure _ ⟨child, known, rfl⟩
  · rintro _ ⟨child, known, rfl⟩
    refine (reads_finish stands .exportStatement [child.as .value]).weaken ?_
    rintro _ rfl
    exact ⟨_, _, child, known, rfl⟩

end Exports

section Assignments

/-- An assignment to a member. -/
def IsAssignment (found : Node → Prop) (node : Node) : Prop := ∃ text start, ∃ target child : Node,
  target.kind = .memberExpression ∧ target.isSettled = true ∧ found child ∧
    node = ⟨.assignmentExpression, none, text, start, [target, child.as .right]⟩

section Tokens

variable (value : List Char)

theorem skips_module : Skips ("module.exports = ".toList ++ value) ("module.exports = ".toList ++ value) :=
  skips_cons (by decide) _

theorem endsWord_point : EndsWord (".exports = ".toList ++ value) := endsWord_cons (by decide) _

theorem wordAt_module : WordAt ("module.exports = ".toList ++ value) (some "module") :=
  wordAt_name "module" (by decide) (endsWord_point value)

theorem skips_point : Skips (".exports = ".toList ++ value) (".exports = ".toList ++ value) := skips_cons (by decide) _

theorem sign?_point : sign? (".exports = ".toList ++ value) = some "." := rfl

theorem skips_equal : Skips (" = ".toList ++ value) ("= ".toList ++ value) := .separator rfl (skips_cons (by decide) _)

end Tokens

theorem toPattern_member (text : String) (start : Position) (children : List Node) :
    toPattern ⟨.memberExpression, none, text, start, children⟩ = ⟨.memberExpression, none, text, start, children⟩ := by
  simp [toPattern]

/-- The target of the assignment, behind its first name. -/
theorem reads_target {value : List Char} {start : Cursor} {named : Node} (leaf : IsLeaf .identifier "module".toList named)
    (stands : Stands total ("module.exports = ".toList ++ value) start) (steps : ℕ) :
    Reads total (suffixes rules true start named (steps + 1)) (".exports = ".toList ++ value) (" = ".toList ++ value)
      fun node => ∃ text place children, node = ⟨.memberExpression, none, text, place, children⟩ ∧
        node.isSettled = true := by
  have pointSkips := skips_point value
  have nameSkips : Skips ("exports = ".toList ++ value) ("exports = ".toList ++ value) := skips_cons (by decide) _
  have nameWord : WordAt ("exports = ".toList ++ value) (some "exports") :=
    wordAt_name "exports" (by decide) (endsWord_cons (by decide) _)
  have name : Reads total (privateName <|> anyWord .propertyIdentifier) ("exports = ".toList ++ value)
      (" = ".toList ++ value) (IsLeaf .propertyIdentifier "exports".toList) :=
    (fails_privateName nameSkips nofun).orElseReads (reads_anyWord nameSkips _ nameWord rfl)
  have last (target : Node) : Reads total (suffixes rules true start target steps) (" = ".toList ++ value)
      (" = ".toList ++ value) (· = target) := by
    cases steps with
    | zero => exact .pure target rfl
    | succ steps =>
      unfold suffixes
      refine (reads_closes fun _ _ _ => rfl).andThen ?_
      exact (reads_nextSign (skips_equal value)).andThen (.pure target rfl)
  unfold suffixes
  refine (reads_closes fun _ _ _ => rfl).andThen ((reads_nextSign pointSkips).andThen ?_)
  refine (reads_sign pointSkips rfl rfl).bind fun _ _ => name.bind fun property known => ?_
  refine (reads_finish stands .memberExpression _).andThen ((last _).weaken ?_)
  rintro _ rfl
  refine ⟨_, _, _, rfl, ?_⟩
  obtain ⟨place, rfl⟩ := leaf
  obtain ⟨other, rfl⟩ := known
  rfl

/-- The assignment of a value to the exports of a module, in the rules for an operand. -/
theorem reads_assignment {steps : ℕ} {value : List Char} {found : Node → Prop}
    (reads : Reads total (goal steps (.expression true false)) (' ' :: value) (';' :: behind) found) :
    Reads total (assignmentOrOperand (goal steps) true false) ("module.exports = ".toList ++ value) (';' :: behind)
      (IsAssignment found) := by
  have moduleSkips := skips_module value
  have equalSkips := skips_equal value
  have free : "module" ∈ freeNames := by decide
  have noFunction : sign? (".exports = ".toList ++ value) ≠ some "=>" := by
    rw [sign?_point]
    decide
  have named : Reads total (primary (goal steps) true false) ("module.exports = ".toList ++ value)
      (".exports = ".toList ++ value) (IsLeaf .identifier "module".toList) :=
    reads_identifier free (endsWord_point value) (skips_point value) noFunction
  unfold assignmentOrOperand
  refine (reads_begin moduleSkips).bind fun start stands => ?_
  refine (reads_seesWord moduleSkips (wordAt_module value) "new").andThen (named.bind fun first leaf => ?_)
  have noArrow : decide (first.kind = .arrowFunction) = false := by
    obtain ⟨place, rfl⟩ := leaf
    rfl
  dsimp only
  rw [noArrow, Bool.false_and, if_neg Bool.false_ne_true]
  refine Reads.get fun reading ready => ?_
  obtain ⟨limit, same⟩ := ready.exists_limit
  rw [same]
  refine (reads_target leaf stands limit).bind ?_
  rintro _ ⟨text, place, children, rfl, settled⟩
  have assignable : (isAssignable (Node.kind ⟨.memberExpression, none, text, place, children⟩) && !false) = true := rfl
  refine (reads_closes fun _ _ _ => rfl).andThen ?_
  rw [if_pos assignable]
  refine (reads_nextSign equalSkips).andThen ((reads_sign equalSkips rfl rfl).bind fun _ _ => ?_)
  refine reads.bind fun child known => ?_
  refine (reads_finish stands .assignmentExpression _).weaken ?_
  rintro _ rfl
  rw [toPattern_member]
  exact ⟨_, _, _, child, rfl, (settled_as _ .left).trans settled, known, rfl⟩

theorem reads_exports {steps : ℕ} {value : List Char} {found : Node → Prop}
    (reads : Reads total (goal steps (.expression true false)) (' ' :: value) (';' :: behind) found) :
    Reads total (goal (steps + 1) (.expression true false)) ("module.exports = ".toList ++ value) (';' :: behind)
      (IsAssignment found) := by
  have skips := skips_module value
  have word := wordAt_module value
  have noYield : some "module" ≠ some "yield" := by decide
  have after := endsExpression_semicolon behind
  refine reads_expressionRule skips word noYield after (reads_operandRule (by decide) after skips ?_)
  unfold unary
  exact (reads_nextSign skips).andThen ((reads_nextWord skips word).andThen (reads_assignment reads))

theorem fails_label {value : List Char} (rules : Rules) (skips : Skips cs ("module.exports = ".toList ++ value)) :
    Fails total (labeledStatement rules) cs := by
  have noColon : Fails total (sign ":") (".exports = ".toList ++ value) := by
    refine fails_sign (skips_point value) ?_
    rw [sign?_point]
    decide
  refine fails_node skips _ ?_
  exact (reads_anyWord skips.token .statementIdentifier (wordAt_module value) rfl).bindFails fun _ _ => noColon.bind _

/-- A member of the module is no module that is declared. -/
theorem fails_moduleRule {value : List Char} (rules : Rules) (skips : Skips cs ("module.exports = ".toList ++ value)) :
    Fails total (moduleRule rules "module" .moduleDeclaration) cs := by
  have pointSkips := skips_point value
  have noWord : WordAt (".exports = ".toList ++ value) none := wordAt_none (by decide) _
  have noString : Fails total stringLiteral (".exports = ".toList ++ value) := by
    refine (reads_peek pointSkips).bindFails fun cursor stands => ?_
    rw [stands.rest]
    exact fails_failure
  have noName : Fails total moduleName (".exports = ".toList ++ value) :=
    (reads_begin pointSkips).bindFails fun _ _ => (fails_anyWord pointSkips _ noWord).bind _
  have line : Reads total onNextLine (".exports = ".toList ++ value) (".exports = ".toList ++ value) fun _ => True :=
    Reads.get fun _ _ => (reads_peek pointSkips).bind fun _ _ => .pure _ trivial
  refine fails_node skips _ ((reads_keyword skips.token (wordAt_module value) rfl).bindFails fun _ _ => ?_)
  refine line.bindFails fun isNext _ => ?_
  cases isNext with
  | true => exact fails_failure
  | false => exact (noString.orElse noName).bind _

end Assignments

section Statements

variable {indent : String} {steps : ℕ} (separate : ∀ c ∈ indent.toList, isSeparator c = true)
  (each : ∀ entry ∈ entries, ReadsAsScript indent entry.2)
  (enough : (renderAt (.lines indent) 0 (.object entries)).length ≤ steps)

/-- The text of the object in a catalog. -/
def objectText (indent : String) (entries : Entries) : List Char :=
  (renderAt (.lines indent) 0 (.object entries)).toList

theorem starts_objectText (behind : List Char) : StartsOperand (objectText indent entries ++ behind) ∧
    WordAt (objectText indent entries ++ behind) none ∧ sign? (objectText indent entries ++ behind) = some "\x7b" := by
  obtain ⟨more, text⟩ := @opens_object indent 0 entries
  rw [objectText, text]
  exact ⟨startsOperand_opening (by decide) _, wordAt_none (by decide) _, rfl⟩

theorem noArrow_object (node : Node) (isObject : IsObject entries node) : node.kind ≠ .arrowFunction :=
  (holds_object isObject).noArrow

/-- An exported module is read as a statement. -/
theorem reads_exportStatement {value behind : List Char} {found : Node → Prop}
    (starts : StartsOperand value ∧ WordAt value none ∧ sign? value = some "\x7b")
    (reads : Reads total (goal steps (.expression true false)) (' ' :: value) (';' :: behind) found)
    (finds : ∀ node, found node → Finds entries (node.as .value)) :
    Reads total (goal (steps + 1) .statement) ("export default ".toList ++ value) behind (Finds entries) := by
  have skips := skips_export value
  refine (reads_nextSign skips).andThen ((reads_nextWord skips (wordAt_export value)).andThen ?_)
  refine (reads_export starts.1.skips starts.2.1 starts.2.2 reads).weaken ?_
  rintro _ ⟨text, start, child, known, rfl⟩
  exact finds_above (by decide) (finds child known) none

/-- An expression is read as a statement. -/
theorem reads_expressionStatement (skips : Skips tok tok)
    (reads : Reads total (rules (.expression true false)) tok (';' :: behind) (Finds entries)) :
    Reads total (expressionStatement rules) tok behind (Finds entries) := by
  have endSkips : Skips (';' :: behind) (';' :: behind) := skips_cons (by decide) behind
  have value : Reads total (expressions rules true) tok (';' :: behind) (Finds entries) := by
    refine (reads_begin skips).bind fun start _ => reads.bind fun node finds => ?_
    exact (reads_sees endSkips ",").andThen (.pure node finds)
  have inside : Reads total (do
      let value ← expressions rules true
      semicolon .expression
      pure [value]) tok behind fun nodes => ∃ child, Finds entries child ∧ nodes = [child] :=
    value.bind fun node finds => (reads_semicolon behind).bind fun _ _ => .pure _ ⟨node, finds, rfl⟩
  refine (reads_node skips .expressionStatement inside).weaken ?_
  rintro _ ⟨start, _, ⟨child, finds, rfl⟩, rfl⟩
  exact finds_above (by decide) finds none

theorem finds_of_assignment (node : Node) (isAssignment : IsAssignment (IsObject entries) node) :
    Finds entries node := by
  obtain ⟨text, start, target, child, member, settled, isObject, rfl⟩ := isAssignment
  exact finds_assignment isObject member settled

include separate each enough

theorem reads_objectExpression (behind : List Char) :
    Reads total (goal (steps + 1) (.expression true false)) (' ' :: (objectText indent entries ++ ';' :: behind))
      (';' :: behind) (IsObject entries) := by
  have starts := (@starts_objectText entries indent (';' :: behind)).1
  exact reads_expression starts (.separator rfl starts.skips) (endsExpression_semicolon behind) noArrow_object
    (reads_objectOperand separate each enough)

theorem reads_constantExpression (behind : List Char) :
    Reads total (goal (steps + 1) (.expression true false))
      (' ' :: (objectText indent entries ++ (constant ++ ';' :: behind))) (';' :: behind) fun node =>
        ∃ text start child, IsObject entries child ∧ node = ⟨.asExpression, none, text, start, [child]⟩ := by
  have starts := (@starts_objectText entries indent (constant ++ ';' :: behind)).1
  exact reads_constant starts (.separator rfl starts.skips) noArrow_object (reads_objectOperand separate each enough)

theorem reads_moduleStatement (behind : List Char) :
    Reads total (goal (steps + 3) .statement)
      ("module.exports = ".toList ++ (objectText indent entries ++ ';' :: behind)) behind (Finds entries) := by
  have skips := skips_module (objectText indent entries ++ ';' :: behind)
  have noDeclaration : Fails total (do declarationRule (goal (steps + 2)) (← get).limit)
      ("module.exports = ".toList ++ (objectText indent entries ++ ';' :: behind)) := by
    refine fails_get fun reading ready => ?_
    obtain ⟨limit, same⟩ := ready.exists_limit
    rw [same]
    exact (reads_nextWord skips (wordAt_module _)).thenFails (fails_moduleRule _ skips)
  have assigned := reads_exports (@reads_objectExpression total entries indent steps separate each enough behind)
  have whole := reads_expressionStatement skips (assigned.weaken finds_of_assignment)
  refine (reads_nextSign skips).andThen ((reads_nextWord skips (wordAt_module _)).andThen ?_)
  exact (fails_label _ skips).orElseReads (noDeclaration.orElseReads whole)

end Statements

end Phrasebook.Proofs.ScriptStatements
