import Mathlib.Data.Set.NAry
import Phrasebook.Proofs.CallsAndElements
import Phrasebook.Proofs.LiteralTexts
import Phrasebook.Proofs.PossibleTexts

/-! The texts of expressions without names: literals, templates, sums of such, and conditions between them. A script
evaluates such an expression to a text by itself, but for the choices at its conditions. The possible texts are those
texts, except that an empty literal is no operand: a sum in which it stands, outside of templates, loses all texts that
it has a part in. -/

namespace Phrasebook

open Syntax

mutual

/-- An expression that a script evaluates to a text once its conditions are decided. -/
inductive TextExpression where
  | literal (text : String)
  | template (content : TemplateContent)
  | sum (left right : TextExpression)
  | choice (consequence alternative : TextExpression)

/-- The content of a template: texts with holes between them. -/
inductive TemplateContent where
  | ending (text : String)
  | hole (text : String) (inner : TextExpression) (rest : TemplateContent)

end

mutual

/-- The texts that an expression evaluates to, over all choices at its conditions. -/
def TextExpression.outcomes : TextExpression → Set String
  | .literal text => {text}
  | .template content => content.outcomes
  | .sum left right => Set.image2 (· ++ ·) left.outcomes right.outcomes
  | .choice consequence alternative => consequence.outcomes ∪ alternative.outcomes

def TemplateContent.outcomes : TemplateContent → Set String
  | .ending text => {text}
  | .hole text inner rest => Set.image2 (fun value behind => text ++ value ++ behind) inner.outcomes rest.outcomes

end

namespace TextExpression

/-- The outcomes in which no empty literal has a part, those inside templates aside. -/
def filled : TextExpression → Set String
  | literal text => {found | found = text ∧ text ≠ ""}
  | template content => content.outcomes
  | sum left right => Set.image2 (· ++ ·) left.filled right.filled
  | choice consequence alternative => consequence.filled ∪ alternative.filled

/-- No literal is empty, those inside templates aside. -/
def Full : TextExpression → Prop
  | literal text => text ≠ ""
  | template _ => True
  | sum left right => left.Full ∧ right.Full
  | choice consequence alternative => consequence.Full ∧ alternative.Full

/-- No operand of a sum has an empty literal, templates aside. -/
def OperandsFull : TextExpression → Prop
  | literal _ => True
  | template _ => True
  | sum left right => left.Full ∧ right.Full
  | choice consequence alternative => consequence.OperandsFull ∧ alternative.OperandsFull

end TextExpression

mutual

/-- A node of a syntax tree is an expression. -/
inductive Stands : Node → TextExpression → Prop
  | literal {node : Node} {text : String} (kind : node.kind = .stringLiteral)
      (spelled : Spells node.quoted.toList (textUnits text.toList)) : Stands node (.literal text)
  | template {node : Node} {content : TemplateContent} (kind : node.kind = .templateString)
      (filled : Fills "" node.children content) : Stands node (.template content)
  | sum {node operator left right : Node} {first second : TextExpression} (kind : node.kind = .binaryExpression)
      (sign : node.child? .operator = some operator) (plus : operator.text = "+")
      (one : node.child? .left = some left) (two : node.child? .right = some right) (before : Stands left first)
      (behind : Stands right second) : Stands node (.sum first second)
  | choice {node left right : Node} {first second : TextExpression} (kind : node.kind = .ternaryExpression)
      (one : node.child? .consequence = some left) (two : node.child? .alternative = some right)
      (met : Stands left first) (unmet : Stands right second) : Stands node (.choice first second)
  | parentheses {node inner : Node} {expression : TextExpression} (kind : node.kind = .parenthesizedExpression)
      (parts : node.parts = [inner]) (inside : Stands inner expression) : Stands node expression

/-- The nodes of a template, behind a source text that belongs to it, are a content. -/
inductive Fills : String → List Node → TemplateContent → Prop
  | ending {source text : String} (spelled : Spells source.toList (textUnits text.toList)) :
      Fills source [] (.ending text)
  | piece {source : String} {child : Node} {children : List Node} {content : TemplateContent}
      (noHole : child.isHole = false) (rest : Fills (source ++ child.text) children content) :
      Fills source (child :: children) content
  | hole {source text : String} {child inner : Node} {children : List Node} {expression : TextExpression}
      {content : TemplateContent} (kind : child.kind = .templateSubstitution) (parts : child.parts = [inner])
      (spelled : Spells source.toList (textUnits text.toList)) (inside : Stands inner expression)
      (rest : Fills "" children content) : Fills source (child :: children) (.hole text expression content)

end

namespace Proofs.TextExpressions

open LiteralTexts PossibleTexts

section Outcomes

theorem filled_subset_outcomes (expression : TextExpression) : expression.filled ⊆ expression.outcomes :=
  match expression with
  | .literal _ => fun _ found => found.1
  | .template _ => fun _ found => found
  | .sum left right => Set.image2_subset (filled_subset_outcomes left) (filled_subset_outcomes right)
  | .choice left right => Set.union_subset_union (filled_subset_outcomes left) (filled_subset_outcomes right)

/-- Without empty literals, all outcomes count. -/
theorem filled_of_full {expression : TextExpression} (full : expression.Full) :
    expression.filled = expression.outcomes :=
  match expression with
  | .literal _ => Set.ext fun _ => and_iff_left full
  | .template _ => rfl
  | .sum left right => by
    rw [TextExpression.filled, filled_of_full full.1, filled_of_full full.2, TextExpression.outcomes]
  | .choice left right => by
    rw [TextExpression.filled, filled_of_full full.1, filled_of_full full.2, TextExpression.outcomes]

/-- If no sum has an empty literal among its operands, only the empty text can be missing. -/
theorem filled_of_operandsFull {expression : TextExpression} (full : expression.OperandsFull) {text : String}
    (some : text ≠ "") : text ∈ expression.filled ↔ text ∈ expression.outcomes :=
  match expression with
  | .literal _ => ⟨And.left, fun found => ⟨found, found ▸ some⟩⟩
  | .template _ => Iff.rfl
  | .sum left right => by
    rw [TextExpression.filled, filled_of_full full.1, filled_of_full full.2, TextExpression.outcomes]
  | .choice left right => or_congr (filled_of_operandsFull full.1 some) (filled_of_operandsFull full.2 some)

end Outcomes

section Templates

/-- The texts so far, each with each value and the text behind this. -/
def grown (heads : List String) (piece : List String × String) : List String :=
  heads.flatMap fun head => piece.1.map fun value => head ++ value ++ piece.2

theorem mem_grown {heads : List String} {piece : List String × String} {text : String} :
    text ∈ grown heads piece ↔ ∃ head ∈ heads, ∃ value ∈ piece.1, head ++ value ++ piece.2 = text := by
  simp only [grown, List.mem_flatMap, List.mem_map]

/-- What grows from texts begins with one of them, and what follows does not depend on it. -/
theorem mem_foldl_grown {pieces : List (List String × String)} {heads : List String} {text : String} :
    text ∈ pieces.foldl grown heads ↔ ∃ head ∈ heads, ∃ tail ∈ pieces.foldl grown [""], head ++ tail = text := by
  induction pieces generalizing heads text with
  | nil => simp
  | cons piece pieces ih =>
    rw [List.foldl_cons, List.foldl_cons, ih]
    constructor
    · rintro ⟨_, grew, tail, last, rfl⟩
      obtain ⟨head, member, value, chosen, rfl⟩ := mem_grown.mp grew
      refine ⟨head, member, value ++ piece.2 ++ tail, ih.mpr ⟨value ++ piece.2, ?_, tail, last, rfl⟩, ?_⟩
      · exact mem_grown.mpr ⟨"", List.mem_singleton_self _, value, chosen, by rw [String.empty_append]⟩
      · simp only [String.append_assoc]
    · rintro ⟨head, member, _, tailed, rfl⟩
      obtain ⟨_, grew, tail, last, rfl⟩ := ih.mp tailed
      obtain ⟨_, empty, value, chosen, rfl⟩ := mem_grown.mp grew
      obtain rfl := List.mem_singleton.mp empty
      refine ⟨head ++ value ++ piece.2, mem_grown.mpr ⟨head, member, value, chosen, rfl⟩, tail, last, ?_⟩
      simp only [String.append_assoc, String.empty_append]

theorem fillTemplate_cons {first : String} {behind : List String} {choices : List (List String)} :
    fillTemplate (first :: behind) choices = (choices.zip behind).foldl grown [first] := rfl

/-- A template begins with its first text and a value of its first hole; the rest of it follows. -/
theorem mem_fillTemplate {first second text : String} {behind values : List String} {choices : List (List String)} :
    text ∈ fillTemplate (first :: second :: behind) (values :: choices) ↔
      ∃ value ∈ values, ∃ tail ∈ fillTemplate (second :: behind) choices, first ++ value ++ tail = text := by
  rw [fillTemplate_cons, fillTemplate_cons, List.zip_cons_cons, List.foldl_cons, mem_foldl_grown]
  constructor
  · rintro ⟨_, grew, tail, last, rfl⟩
    obtain ⟨_, only, value, chosen, rfl⟩ := mem_grown.mp grew
    obtain rfl := List.mem_singleton.mp only
    refine ⟨value, chosen, second ++ tail, ?_, by simp only [String.append_assoc]⟩
    exact mem_foldl_grown.mpr ⟨second, List.mem_singleton_self _, tail, last, rfl⟩
  · rintro ⟨value, chosen, _, tailed, rfl⟩
    obtain ⟨head, only, tail, last, rfl⟩ := mem_foldl_grown.mp tailed
    obtain rfl := List.mem_singleton.mp only
    refine ⟨first ++ value ++ head, ?_, tail, last, by simp only [String.append_assoc]⟩
    exact mem_grown.mpr ⟨first, List.mem_singleton_self _, value, chosen, rfl⟩

end Templates

section Texts

variable {constants : Constants} {keepEmpty : Bool}

/-- The possible texts of an expression can be told, and are these. -/
def HasTexts (constants : Constants) (keepEmpty : Bool) (node : Node) (outcomes : Set String) : Prop :=
  ∃ texts, possibleTexts constants keepEmpty node = .ok texts ∧ ∀ text, text ∈ texts ↔ text ∈ outcomes

/-- The texts of a template can be told from what is left of it, and are these. -/
def HasFilled (constants : Constants) (source : String) (children : List Node) (outcomes : Set String) : Prop :=
  ∃ first behind choices, (Node.fixedTexts source children).mapM decodeEscapes = .ok (first :: behind) ∧
    ((children.filter Node.isHole).filterMap fun hole => hole.parts.head?).mapM (possibleTexts constants true) =
      .ok choices ∧
    ∀ text, text ∈ fillTemplate (first :: behind) choices ↔ text ∈ outcomes

/-- The outcomes that count: all of them, or those without a part of an empty literal. -/
def counted (keepEmpty : Bool) (expression : TextExpression) : Set String :=
  if keepEmpty then expression.outcomes else expression.filled

theorem counted_sum (left right : TextExpression) :
    counted keepEmpty (.sum left right) = Set.image2 (· ++ ·) (counted keepEmpty left) (counted keepEmpty right) := by
  cases keepEmpty <;> rfl

theorem counted_choice (left right : TextExpression) :
    counted keepEmpty (.choice left right) = counted keepEmpty left ∪ counted keepEmpty right := by
  cases keepEmpty <;> rfl

theorem counted_template (content : TemplateContent) : counted keepEmpty (.template content) = content.outcomes := by
  cases keepEmpty <;> rfl

theorem mem_onlyText {text found : String} :
    found ∈ onlyText keepEmpty (some text) ↔ found ∈ counted keepEmpty (.literal text) := by
  cases keepEmpty
  · by_cases empty : text = ""
    · simp [onlyText, counted, TextExpression.filled, empty]
    · simp [onlyText, counted, TextExpression.filled, empty]
  · simp [onlyText, counted, TextExpression.outcomes]

-- Holes keep empty texts, whatever is asked for around the template, so both ways go through one induction.
mutual

theorem hasTexts_of_stands {node : Node} {expression : TextExpression} (stands : Stands node expression)
    (keepEmpty : Bool) : HasTexts constants keepEmpty node (counted keepEmpty expression) :=
  match stands with
  | @Stands.literal _ text kind spelled => by
    refine ⟨onlyText keepEmpty (some text), ?_, fun found => mem_onlyText⟩
    rw [possibleTexts_of_literal kind, stringValue?_of_spells kind spelled]
    rfl
  | .template kind filled => by
    obtain ⟨first, behind, choices, texts, holes, among⟩ := hasFilled_of_fills filled
    refine ⟨fillTemplate (first :: behind) choices, ?_, ?_⟩
    · rw [possibleTexts_of_template kind, Node.templateTexts, texts, Node.holes, holes]
      rfl
    · rw [counted_template]
      exact among
  | .sum kind sign plus one two before behind => by
    obtain ⟨left, told, amongLeft⟩ := hasTexts_of_stands before keepEmpty
    obtain ⟨right, toldRight, amongRight⟩ := hasTexts_of_stands behind keepEmpty
    refine ⟨left.flatMap fun l => right.map fun r => l ++ r, ?_, fun text => ?_⟩
    · rw [possibleTexts_of_sum kind sign plus one two, told, toldRight]
      rfl
    · simp only [List.mem_flatMap, List.mem_map, amongLeft, amongRight, counted_sum, Set.mem_image2]
  | .choice kind one two met unmet => by
    obtain ⟨left, told, amongLeft⟩ := hasTexts_of_stands met keepEmpty
    obtain ⟨right, toldRight, amongRight⟩ := hasTexts_of_stands unmet keepEmpty
    refine ⟨left ++ right, ?_, fun text => ?_⟩
    · rw [possibleTexts_of_choice kind one two, told, toldRight]
      rfl
    · rw [List.mem_append, amongLeft, amongRight, counted_choice, Set.mem_union]
  | .parentheses kind parts inside => by
    obtain ⟨texts, told, among⟩ := hasTexts_of_stands inside keepEmpty
    refine ⟨texts, ?_, among⟩
    rw [possibleTexts_of_parentheses (by simp [Node.isWrapper, kind]) parts, told]
termination_by structural stands

theorem hasFilled_of_fills {source : String} {children : List Node} {content : TemplateContent}
    (fills : Fills source children content) : HasFilled constants source children content.outcomes :=
  match fills with
  | @Fills.ending _ text spelled => by
    refine ⟨text, [], [], ?_, rfl, fun found => List.mem_singleton⟩
    rw [Node.fixedTexts, List.mapM_cons, decodeEscapes_of_spells spelled]
    rfl
  | .piece noHole rest => by
    obtain ⟨first, behind, choices, texts, holes, among⟩ := hasFilled_of_fills rest
    refine ⟨first, behind, choices, ?_, ?_, among⟩
    · rw [Node.fixedTexts, noHole]
      exact texts
    · rw [List.filter_cons_of_neg (by simp [noHole])]
      exact holes
  | @Fills.hole _ text child _ _ _ _ kind parts spelled inside rest => by
    obtain ⟨values, told, amongValues⟩ := hasTexts_of_stands inside true
    obtain ⟨second, behind, choices, texts, holes, among⟩ := hasFilled_of_fills rest
    have hole : child.isHole = true := by simp [Node.isHole, kind]
    refine ⟨text, second :: behind, values :: choices, ?_, ?_, fun found => ?_⟩
    · rw [Node.fixedTexts, if_pos hole, List.mapM_cons, decodeEscapes_of_spells spelled, texts]
      rfl
    · rw [List.filter_cons_of_pos hole, List.filterMap_cons, parts, List.head?_cons]
      simp only [List.mapM_cons, told, holes]
      rfl
    · simp only [mem_fillTemplate, amongValues, among, TemplateContent.outcomes, Set.mem_image2]
      rfl
termination_by structural fills

end

end Texts

section Examples

open CallsAndElements

/-- Whether a node is a literal with a content. -/
def quotes (content : String) (node : Node) : Bool := node.kind = .stringLiteral && node.quoted = content

/-- Whether a node is a condition between two literals. -/
def choosesBetween (first second : String) (node : Node) : Bool :=
  node.kind = .ternaryExpression && (node.child? .consequence).any (quotes first) &&
    (node.child? .alternative).any (quotes second)

/-- Whether a character of a literal stands for itself. -/
def isUnescaped (c : Char) : Bool := c ≠ '\\' ∧ c ≠ '\r'

theorem spells_of_plain {characters : List Char} (plain : characters.all isUnescaped = true) :
    Spells characters (textUnits characters) := by
  induction characters with
  | nil => exact .nothing
  | cons c characters ih =>
    rw [List.all_cons, Bool.and_eq_true] at plain
    obtain ⟨slash, feed⟩ := of_decide_eq_true plain.1
    exact .plain slash feed (ih plain.2)

theorem stands_of_quotes {content : String} {node : Node} (quoted : quotes content node = true)
    (plain : content.toList.all isUnescaped = true) : Stands node (.literal content) := by
  simp only [quotes, Bool.and_eq_true, decide_eq_true_eq] at quoted
  refine .literal quoted.1 ?_
  rw [quoted.2]
  exact spells_of_plain plain

theorem stands_of_choosesBetween {first second : String} {node : Node}
    (between : choosesBetween first second node = true) (before : first.toList.all isUnescaped = true)
    (behind : second.toList.all isUnescaped = true) : Stands node (.choice (.literal first) (.literal second)) := by
  simp only [choosesBetween, Bool.and_eq_true, Option.any_eq_true, decide_eq_true_eq] at between
  obtain ⟨⟨kind, left, one, met⟩, right, two, unmet⟩ := between
  exact .choice kind one two (stands_of_quotes met before) (stands_of_quotes unmet behind)

def filledTemplate : Node := expressionOf "`a$\x7bc ? 'b' : 'd'\x7d`;"

def addedTexts : Node := expressionOf "'a' + (c ? 'b' : 'd');"

def betweenTexts : TextExpression := .choice (.literal "b") (.literal "d")

theorem filledTemplate_stands : Stands filledTemplate (.template (.hole "a" betweenTexts (.ending ""))) := by
  have checked : filledTemplate.kind = .templateString ∧ filledTemplate.children.length = 2 ∧
      (filledTemplate.children[0]?).any (fun piece : Node => piece.isHole = false ∧ piece.text = "a") = true ∧
      (filledTemplate.children[1]?).any (fun hole : Node => hole.kind = .templateSubstitution ∧ hole.parts.length = 1 ∧
        (hole.parts.head?).any (choosesBetween "b" "d") = true) = true := by
    decide +kernel
  obtain ⟨kind, several, first, second⟩ := checked
  obtain ⟨piece, hole, children⟩ := List.length_eq_two.mp several
  rw [children] at first second
  simp only [List.getElem?_cons_zero, List.getElem?_cons_succ, Option.any_some, decide_eq_true_eq] at first second
  obtain ⟨substitution, single, between⟩ := second
  obtain ⟨inner, parts⟩ := List.length_eq_one_iff.mp single
  rw [parts] at between
  refine .template kind ?_
  rw [children]
  refine .piece first.1 (.hole substitution parts ?_ (stands_of_choosesBetween between (by decide) (by decide)) ?_)
  · rw [first.2]
    exact spells_of_plain (by decide)
  · exact .ending .nothing

theorem addedTexts_stands : Stands addedTexts (.sum (.literal "a") betweenTexts) := by
  have checked : addedTexts.kind = .binaryExpression ∧
      (addedTexts.child? .operator).any (fun sign : Node => sign.text = "+") = true ∧
      (addedTexts.child? .left).any (quotes "a") = true ∧
      (addedTexts.child? .right).any (fun right : Node => right.kind = .parenthesizedExpression ∧
        right.parts.length = 1 ∧ (right.parts.head?).any (choosesBetween "b" "d") = true) = true := by
    decide +kernel
  simp only [Option.any_eq_true, decide_eq_true_eq] at checked
  obtain ⟨kind, ⟨operator, sign, plus⟩, ⟨left, one, quoted⟩, right, two, wrapper, single, _, head, between⟩ := checked
  obtain ⟨inner, parts⟩ := List.length_eq_one_iff.mp single
  rw [parts] at head
  obtain rfl := Option.some.inj head
  exact .sum kind sign plus one two (stands_of_quotes quoted (by decide))
    (.parentheses wrapper parts (stands_of_choosesBetween between (by decide) (by decide)))

end Examples

end Proofs.TextExpressions

end Phrasebook
