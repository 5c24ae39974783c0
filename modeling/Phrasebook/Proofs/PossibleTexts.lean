import Phrasebook.Constant

/-! The texts of an expression are made of those of its parts, in a way of its own for each kind. -/

namespace Phrasebook.Proofs.PossibleTexts

open Syntax

/-- The texts of a part that may be missing. -/
def textsAt (texts : Node → Except Failure (List String)) : Option Node → Except Failure (List String)
  | none => pure []
  | some part => texts part

/-- The texts of a field of a constant, where what has the field is no more than a name. -/
def textsOfField (constants : Constants) (object : Option Node) (field : Option String) : List String :=
  match object, field with
  | some object, some field => if object.kind = .identifier then constants.field object.text field else []
  | _, _ => []

/-- The texts of a value that has a type behind it: those the type lists, or else its own. -/
def textsOfTyped (keepEmpty : Bool) (texts : Node → Except Failure (List String)) :
    List Node → Except Failure (List String)
  | value :: type :: _ => do
    let listed ← typeTexts keepEmpty type
    if listed.isEmpty then texts value else pure listed
  | _ => pure []

/-- The texts of an expression with no parentheses around it, made of the texts of its parts. -/
def textsOf (constants : Constants) (keepEmpty : Bool) (texts : Bool → Node → Except Failure (List String))
    (node : Node) : Except Failure (List String) :=
  match node.kind with
  | .stringLiteral => node.stringValue?.map (onlyText keepEmpty)
  | .ternaryExpression => do
    let consequence ← textsAt (texts keepEmpty) (node.child? .consequence)
    let alternative ← textsAt (texts keepEmpty) (node.child? .alternative)
    pure (consequence ++ alternative)
  | .templateString => do
    let fixed ← node.templateTexts
    let choices ← node.holes.mapM (texts true)
    pure (fillTemplate fixed choices)
  | .memberExpression =>
    pure (textsOfField constants ((node.child? .object).bind Node.unwrap) ((node.child? .property).map Node.text))
  | .subscriptExpression =>
    match node.child? .index with
    | some index => index.stringValue?.map (textsOfField constants ((node.child? .object).bind Node.unwrap))
    | none => pure []
  | .binaryExpression =>
    if (node.child? .operator).any fun sign => sign.text == "+" then do
      let left ← textsAt (texts keepEmpty) (node.child? .left)
      let right ← textsAt (texts keepEmpty) (node.child? .right)
      pure (left.flatMap fun l => right.map fun r => l ++ r)
    else pure []
  | .numberLiteral | .trueLiteral | .falseLiteral => node.literal?.map fun value => (value.map Literal.render).toList
  | .asExpression | .satisfiesExpression => textsOfTyped keepEmpty (texts keepEmpty) node.parts
  | .identifier => pure (if node.text = "undefined" then [] else constants.texts node.text)
  | _ => pure []

variable {constants : Constants} {keepEmpty : Bool} {expression node left right : Node}

theorem possibleTexts_eq (inside : expression.unwrap = some node) :
    possibleTexts constants keepEmpty expression =
      textsOf constants keepEmpty (possibleTexts constants) node := by
  rw [possibleTexts.eq_def]
  split
  next nothing => cases inside.symm.trans nothing
  next core unwrapped =>
    obtain rfl := Option.some.inj (inside.symm.trans unwrapped)
    dsimp only
    split
    next literal =>
      simp only [textsOf, literal]
      cases node.stringValue? <;> rfl
    next choice =>
      simp only [textsOf, choice]
      split
      all_goals
        next held =>
          simp only [held, textsAt]
          refine congrArg _ (funext fun _ => ?_)
          split <;> next held => simp only [held]
    next template =>
      simp only [textsOf, template]
      rw [List.mapM_subtype (fun _ _ => rfl), List.unattach_attach]
    next member =>
      simp only [textsOf, member]
      cases (node.child? .object).bind Node.unwrap <;> cases node.child? .property <;> simp [textsOfField]
      split <;> rfl
    next subscript =>
      simp only [textsOf, subscript]
      cases node.child? .index with
      | none => simp
      | some index =>
        dsimp only
        cases index.stringValue? with
        | error failure => rfl
        | ok name =>
          simp only [Except.map, bind, Except.bind]
          cases (node.child? .object).bind Node.unwrap <;> cases name <;> simp only [textsOfField] <;>
            first | rfl | (split <;> rfl)
    next sum =>
      simp only [textsOf, sum]
      split
      next =>
        split
        all_goals
          next held =>
            simp only [held, textsAt]
            refine congrArg _ (funext fun _ => ?_)
            split <;> next held => simp only [held]
      next => rfl
    next number =>
      simp only [textsOf, number]
      cases node.literal? <;> rfl
    next yes =>
      simp only [textsOf, yes]
      cases node.literal? <;> rfl
    next no =>
      simp only [textsOf, no]
      cases node.literal? <;> rfl
    next cast =>
      simp only [textsOf, cast]
      split <;> simp only [*, textsOfTyped]
    next satisfied =>
      simp only [textsOf, satisfied]
      split <;> simp only [*, textsOfTyped]
    next name => simp only [textsOf, name]
    next => simp only [textsOf, *]

theorem possibleTexts_of_unwrap_eq_none (nothing : expression.unwrap = none) :
    possibleTexts constants keepEmpty expression = .ok [] := by
  rw [possibleTexts]
  split
  next => rfl
  next held => cases nothing.symm.trans held

/-- What stands around an expression without a meaning of its own makes no difference to its texts. -/
theorem possibleTexts_of_unwrap_eq {inner : Node} (same : node.unwrap = inner.unwrap) :
    possibleTexts constants keepEmpty node = possibleTexts constants keepEmpty inner := by
  cases held : inner.unwrap with
  | none => rw [possibleTexts_of_unwrap_eq_none held, possibleTexts_of_unwrap_eq_none (same.trans held)]
  | some core => rw [possibleTexts_eq held, possibleTexts_eq (same.trans held)]

theorem possibleTexts_of_parentheses {inner : Node} {others : List Node} (wrapper : node.isWrapper = true)
    (parts : node.parts = inner :: others) :
    possibleTexts constants keepEmpty node = possibleTexts constants keepEmpty inner := by
  refine possibleTexts_of_unwrap_eq ?_
  rw [Node.unwrap, if_pos wrapper]
  split
  next nothing => cases parts.symm.trans nothing
  next found =>
    obtain ⟨rfl, -⟩ := List.cons.inj (parts.symm.trans found)
    rfl

theorem possibleTexts_of_literal (literal : node.kind = .stringLiteral) :
    possibleTexts constants keepEmpty node = node.stringValue?.map (onlyText keepEmpty) := by
  rw [possibleTexts_eq (Node.unwrap_eq (by simp [Node.isWrapper, literal]))]
  simp only [textsOf, literal]

theorem possibleTexts_of_identifier (identifier : node.kind = .identifier) :
    possibleTexts constants keepEmpty node =
      .ok (if node.text = "undefined" then [] else constants.texts node.text) := by
  rw [possibleTexts_eq (Node.unwrap_eq (by simp [Node.isWrapper, identifier]))]
  simp only [textsOf, identifier]
  rfl

theorem possibleTexts_of_choice (choice : node.kind = .ternaryExpression) (first : node.child? .consequence = some left)
    (second : node.child? .alternative = some right) :
    possibleTexts constants keepEmpty node = (do
      let consequence ← possibleTexts constants keepEmpty left
      let alternative ← possibleTexts constants keepEmpty right
      pure (consequence ++ alternative)) := by
  rw [possibleTexts_eq (Node.unwrap_eq (by simp [Node.isWrapper, choice]))]
  simp only [textsOf, choice, first, second, textsAt]

theorem possibleTexts_of_sum {operator : Node} (sum : node.kind = .binaryExpression)
    (sign : node.child? .operator = some operator) (plus : operator.text = "+")
    (first : node.child? .left = some left) (second : node.child? .right = some right) :
    possibleTexts constants keepEmpty node = (do
      let left ← possibleTexts constants keepEmpty left
      let right ← possibleTexts constants keepEmpty right
      pure (left.flatMap fun l => right.map fun r => l ++ r)) := by
  have added : (node.child? .operator).any (fun sign => sign.text == "+") = true := by simp [sign, plus]
  rw [possibleTexts_eq (Node.unwrap_eq (by simp [Node.isWrapper, sum]))]
  simp only [textsOf, sum]
  rw [if_pos added]
  simp only [first, second, textsAt]

theorem possibleTexts_of_template (template : node.kind = .templateString) :
    possibleTexts constants keepEmpty node = (do
      let texts ← node.templateTexts
      let choices ← node.holes.mapM (possibleTexts constants true)
      pure (fillTemplate texts choices)) := by
  rw [possibleTexts_eq (Node.unwrap_eq (by simp [Node.isWrapper, template]))]
  simp only [textsOf, template]

end Phrasebook.Proofs.PossibleTexts
