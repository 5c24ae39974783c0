import Phrasebook.Project.Keys

/-! What can go wrong inside a source. A failure that is met while a source's tree is read is one of an escape, of the
settings' hooks, or of a place, and never one that speaks of the source as a whole. -/

namespace Phrasebook

/-- The failures that reading the tree of a source can meet: of an escape, of a hook, or of a place. -/
inductive Failure.OfReading : Failure → Prop
  | noSuchCharacter : OfReading .noSuchCharacter
  | characterNumberTooLarge : OfReading .characterNumberTooLarge
  | hook {hook : Hook} {failure : Failure} (unusable : hook.checked = .error failure) : OfReading failure
  | place {file : String} {line : Int} {column : Nat} {failure : Failure}
      (impossible : Location.make file line column = .error failure) : OfReading failure

namespace Proofs.SearchFailures

open Catalog Syntax

variable {α β : Type}

/-- A failure, if there is one, is of something inside a source. -/
def Inner (result : Except Failure α) : Prop :=
  ∀ failure, result = .error failure → failure.concernsSource = false

/-- A failure, if there is one, is met in reading the tree of a source. -/
def Legible (result : Except Failure α) : Prop := ∀ failure, result = .error failure → failure.OfReading

theorem message_of_reading {failure : Failure} (met : failure.OfReading) :
    failure = .noSuchCharacter ∨ failure = .characterNumberTooLarge ∨
      ∃ message ∈ ["Hook name is required", "Hook argument positions must be -1 or greater", "Line numbers start at 1"],
        failure = .invalid message := by
  cases met with
  | noSuchCharacter => exact .inl rfl
  | characterNumberTooLarge => exact .inr (.inl rfl)
  | hook unusable =>
    unfold Hook.checked at unusable
    split at unusable
    · exact .inr (.inr ⟨_, by simp, (Except.error.inj unusable).symm⟩)
    · split at unusable
      · exact .inr (.inr ⟨_, by simp, (Except.error.inj unusable).symm⟩)
      · cases unusable
  | place impossible =>
    unfold Location.make at impossible
    split at impossible
    · exact .inr (.inr ⟨_, by simp, (Except.error.inj impossible).symm⟩)
    · cases impossible

theorem Legible.inner {result : Except Failure α} (legible : Legible result) : Inner result := by
  intro failure same
  obtain rfl | rfl | ⟨message, -, rfl⟩ := message_of_reading (legible failure same) <;> rfl

namespace Legible

theorem ok (value : α) : Legible (.ok value) := by
  intro failure same
  cases same

theorem pure (value : α) : Legible (Pure.pure value) := ok value

theorem error {failure : Failure} (met : failure.OfReading) : Legible (α := α) (.error failure) := by
  intro other same
  exact Except.error.inj same ▸ met

theorem bind {first : Except Failure α} {next : α → Except Failure β} (one : Legible first)
    (two : ∀ value, Legible (next value)) : Legible (first >>= next) := by
  cases first with
  | error failure => exact error (one failure rfl)
  | ok value => exact two value

theorem mapM {step : α → Except Failure β} {items : List α} (each : ∀ item ∈ items, Legible (step item)) :
    Legible (items.mapM step) := by
  induction items with
  | nil => exact pure []
  | cons item items ih =>
    rw [List.mapM_cons]
    apply (each item List.mem_cons_self).bind
    intro value
    apply (ih fun other member => each other (List.mem_cons_of_mem _ member)).bind
    intro values
    exact pure (value :: values)

theorem foldlM {step : β → α → Except Failure β} {items : List α} (start : β)
    (each : ∀ reached, ∀ item ∈ items, Legible (step reached item)) : Legible (items.foldlM step start) := by
  induction items generalizing start with
  | nil => exact pure start
  | cons item items ih =>
    rw [List.foldlM_cons]
    apply (each start item List.mem_cons_self).bind
    intro reached
    exact ih reached fun other next member => each other next (List.mem_cons_of_mem _ member)

end Legible

theorem legible_decodeNumbers (steps : Nat) (cs : List Char) : Legible (decodeNumbers steps cs) := by
  induction steps generalizing cs with
  | zero => exact .ok []
  | succ steps ih =>
    rw [decodeNumbers.eq_def]
    dsimp only
    split
    · exact .ok []
    · split
      · exact .ok _
      · split
        · split
          · exact .error .characterNumberTooLarge
          · split
            · exact .error .noSuchCharacter
            · exact (ih _).bind fun _ => .pure _
        · exact (ih _).bind fun _ => .pure _
      · split
        · exact (ih _).bind fun _ => .pure _
        · split
          · exact ih _
          · exact (ih _).bind fun _ => .pure _
    · exact (ih _).bind fun _ => .pure _

theorem legible_decodeEscapes (text : String) : Legible (decodeEscapes text) := by
  apply (legible_decodeNumbers _ _).bind
  intro numbers
  exact .pure _

theorem legible_stringValue? (node : Node) : Legible node.stringValue? := by
  unfold Node.stringValue?
  split
  · exact .pure none
  · split
    · exact (legible_decodeEscapes _).bind fun _ => .pure _
    · exact .pure none

theorem legible_literal? (node : Node) : Legible node.literal? := by
  unfold Node.literal?
  split
  · exact .pure none
  next inner _ =>
    apply (legible_stringValue? inner).bind
    intro value
    split
    · exact .pure _
    · split <;> exact .pure _

section Properties

theorem legible_propertyName? (key : Node) : Legible key.propertyName? := by
  unfold Node.propertyName?
  split
  all_goals try exact .pure _
  · exact legible_stringValue? key
  · split
    · exact .pure none
    · exact legible_stringValue? _

theorem legible_property? (member : Node) : Legible member.property? := by
  unfold Node.property?
  split
  · dsimp only
    split
    · apply (legible_propertyName? _).bind
      intro name
      split <;> exact .pure _
    · apply (Legible.pure none).bind
      intro name
      split <;> exact .pure _
  · exact .pure _
  · exact .pure none

theorem legible_properties (object : Node) : Legible object.properties := by
  apply (Legible.mapM fun member _ => legible_property? member).bind
  intro found
  exact .pure _

theorem legible_objectProperties (node : Node) : Legible node.objectProperties := by
  unfold Node.objectProperties
  split
  · split
    · exact legible_properties _
    · exact .pure []
  · exact .pure []

theorem legible_property (node : Node) (name : String) : Legible (node.property name) := by
  apply (legible_objectProperties node).bind
  intro properties
  exact .pure _

theorem legible_propertyLiteral? (node : Node) (name : String) : Legible (node.propertyLiteral? name) := by
  apply (legible_property node name).bind
  intro value
  cases value with
  | none => exact .pure none
  | some value => exact legible_literal? value

theorem legible_templateTexts (node : Node) : Legible node.templateTexts :=
  Legible.mapM fun text _ => legible_decodeEscapes text

end Properties

section Texts

theorem legible_typeTexts (keepEmpty : Bool) (type : Node) : Legible (typeTexts keepEmpty type) := by
  fun_induction typeTexts keepEmpty type with
  | case1 keepEmpty type isUnion ih =>
    refine (Legible.mapM ?_).bind fun _ => .pure _
    rintro ⟨member, inside⟩ _
    exact ih member inside
  | case2 => exact .pure []
  | case3 keepEmpty type isParenthesized inner rest held smaller ih => exact ih
  | case4 => exact .pure []
  | case5 keepEmpty type isLiteral literal rest held isText =>
    exact (legible_stringValue? literal).bind fun _ => .pure _
  | case6 keepEmpty type isLiteral literal rest held noText =>
    refine (legible_literal? literal).bind fun value => ?_
    split <;> exact .pure _
  | case7 keepEmpty type isTemplate ih =>
    refine (legible_templateTexts type).bind fun texts => ?_
    refine (Legible.mapM ?_).bind fun _ => .pure _
    rintro ⟨inner, inside⟩ _
    exact ih inner inside
  | case8 => exact .pure []

theorem legible_possibleTexts (constants : Constants) (keepEmpty : Bool) (expression : Node) :
    Legible (possibleTexts constants keepEmpty expression) := by
  induction size : expression.size using Nat.strongRecOn generalizing keepEmpty expression with
  | ind bound ih =>
    subst size
    rw [possibleTexts]
    split
    · exact .pure []
    next node unwrapped =>
      have within := Node.size_le_of_unwrap unwrapped
      have inside (inner : Node) (smaller : inner.size < node.size) (keepEmpty : Bool) :
          Legible (possibleTexts constants keepEmpty inner) :=
        ih inner.size (Nat.lt_of_lt_of_le smaller within) keepEmpty inner rfl
      have child {role : Role} {inner : Node} (held : node.child? role = some inner) (keepEmpty : Bool) :
          Legible (possibleTexts constants keepEmpty inner) := inside inner (Node.size_lt_of_child? held) keepEmpty
      simp only [pure_bind]
      split
      · exact (legible_stringValue? node).bind fun _ => .pure _
      · -- both branches of a condition count
        split
        · split
          · exact .pure _
          next held => exact (child held keepEmpty).bind fun _ => .pure _
        next held =>
          refine (child held keepEmpty).bind fun consequence => ?_
          split
          · exact .pure _
          next held => exact (child held keepEmpty).bind fun _ => .pure _
      · refine (legible_templateTexts node).bind fun texts => ?_
        refine (Legible.mapM ?_).bind fun _ => .pure _
        rintro ⟨inner, member⟩ _
        exact inside inner (Node.size_lt_of_mem_holes member) true
      · split
        · split <;> exact .pure _
        · exact .pure []
      · split
        · refine (legible_stringValue? _).bind fun index => ?_
          split
          · split <;> exact .pure _
          · exact .pure []
        · split
          · split <;> exact .pure _
          · exact .pure []
      · split
        · split
          · split
            · exact .pure _
            next held => exact (child held keepEmpty).bind fun _ => .pure _
          next held =>
            refine (child held keepEmpty).bind fun left => ?_
            split
            · exact .pure _
            next held => exact (child held keepEmpty).bind fun _ => .pure _
        · exact .pure []
      · exact (legible_literal? node).bind fun _ => .pure _
      · exact (legible_literal? node).bind fun _ => .pure _
      · exact (legible_literal? node).bind fun _ => .pure _
      -- the texts that a type lists come before those of the value
      iterate 2
        split
        next value type rest held =>
          have member : value ∈ node.parts := held ▸ List.mem_cons_self
          refine (legible_typeTexts keepEmpty type).bind fun listed => ?_
          split
          · exact inside value (Node.size_lt_of_mem_parts member) keepEmpty
          · exact .pure listed
        next => exact .pure []
      · exact .pure _
      · exact .pure []

/-- A value has the texts it stands for, unless it has fields. -/
theorem legible_constantOfFields (constants : Constants) (value : Node) (fields : List (String × String)) :
    Legible (α := Option Constant) (if fields.isEmpty then do
      match ← possibleTexts constants false value with
      | [] => pure none
      | values => pure (some (.texts values))
    else pure (some (.record fields))) := by
  split
  · refine (legible_possibleTexts constants false value).bind fun values => ?_
    split <;> exact .pure _
  · exact .pure _

theorem legible_constant? (constants : Constants) (value : Node) : Legible (constants.constant? value) := by
  unfold Constants.constant?
  generalize (if value.kind = .asExpression ∨ value.kind = .satisfiesExpression then _ else value) = target
  dsimp only
  split
  · refine Legible.bind ?_ (legible_constantOfFields constants value)
    refine (legible_properties target).bind fun properties => ?_
    refine (Legible.mapM fun property _ => ?_).bind fun _ => .pure _
    refine (legible_possibleTexts constants false property.2).bind fun texts => ?_
    split <;> exact .pure _
  · exact (Legible.pure []).bind (legible_constantOfFields constants value)

theorem legible_declare (constants : Constants) (declarator : Node) : Legible (constants.declare declarator) := by
  unfold Constants.declare
  split
  · split
    · refine (legible_constant? constants _).bind fun constant => ?_
      split <;> exact .pure _
    · exact .pure _
  · exact .pure _

end Texts

section Declarations

theorem legible_checked (hook : Hook) : Legible hook.checked := fun _ => .hook

theorem legible_namespacesOf (argument : Option Node) : Legible (namespacesOf argument) := by
  unfold namespacesOf
  split
  · exact .pure none
  · split
    · exact (Legible.mapM fun part _ => legible_stringValue? part).bind fun _ => .pure _
    · exact (legible_stringValue? _).bind fun _ => .pure _

theorem legible_keyPrefixOf (texts : List (String × String)) (steps : Nat) (argument : Option Node) :
    Legible (keyPrefixOf texts steps argument) := by
  induction steps generalizing argument with
  | zero => exact .pure none
  | succ steps ih =>
    cases argument with
    | none => exact .pure none
    | some node =>
      rw [keyPrefixOf]
      split
      · exact (legible_property node "keyPrefix").bind fun inner => ih _
      · split
        · exact .pure _
        · exact legible_stringValue? node

theorem legible_plainText (node : Option Node) : Legible (α := Option String) (do
    match node with
    | some node => if node.kind = .stringLiteral then node.stringValue? else pure none
    | none => pure none) := by
  split
  · split
    · exact legible_stringValue? _
    · exact .pure none
  · exact .pure none

theorem legible_bindingOfHook (texts : List (String × String)) (call : Node) (hook : Hook) :
    Legible (bindingOfHook texts call hook) := by
  unfold bindingOfHook
  dsimp only
  refine (legible_plainText _).bind fun first => ?_
  refine (legible_plainText _).bind fun second => ?_
  split
  · exact (legible_keyPrefixOf texts _ _).bind fun _ => .pure _
  · refine (legible_namespacesOf _).bind fun namespaces => ?_
    exact (legible_keyPrefixOf texts _ _).bind fun _ => .pure _

theorem legible_bindingOfFixed (texts : List (String × String)) (call : Node) :
    Legible (bindingOfFixed texts call) := by
  refine (legible_namespacesOf _).bind fun namespaces => ?_
  exact (legible_keyPrefixOf texts _ _).bind fun _ => .pure _

theorem legible_declareCall? (extraction : Extraction) (scopes : Scopes) (target call : Node) :
    Legible (scopes.declareCall? extraction target call) := by
  unfold Scopes.declareCall?
  split
  · exact .pure none
  split
  · exact .pure none
  split
  · refine (Legible.mapM fun hook _ => legible_checked hook).bind fun hooks => ?_
    split
    · exact (legible_bindingOfHook _ _ _).bind fun _ => .pure _
    · split
      · split
        · exact (legible_bindingOfFixed _ _).bind fun _ => .pure _
        · exact .pure none
      · exact .pure none
  · split
    · split
      · refine (legible_bindingOfFixed _ _).bind fun binding => ?_
        split <;> exact .pure _
      · exact .pure none
    · exact .pure none

/-- A step that carries a state fails, if it does, at something inside the source. -/
def LegibleStep {σ : Type} (step : ExceptT Failure (StateM σ) α) : Prop := ∀ state, Legible (step.run.run state).1

namespace LegibleStep

variable {σ : Type}

theorem pure (value : α) : LegibleStep (σ := σ) (Pure.pure value) := fun _ => .ok value

theorem get : LegibleStep (σ := σ) get := fun state => .ok state

theorem modify (convert : σ → σ) : LegibleStep (modify convert) := fun _ => .ok ()

theorem bind {step : ExceptT Failure (StateM σ) α} {next : α → ExceptT Failure (StateM σ) β} (one : LegibleStep step)
    (two : ∀ value, LegibleStep (next value)) : LegibleStep (step >>= next) := by
  intro state
  have first := one state
  rw [ExceptT.run_bind, StateT.run_bind]
  rcases told : step.run.run state with ⟨answer, later⟩
  rw [told] at first
  cases answer with
  | error failure => exact Legible.error (first failure rfl)
  | ok value => exact two value later

end LegibleStep

theorem legible_liftExcept {result : Except Failure α} (inner : Legible result) :
    LegibleStep (Scopes.declare.liftExcept result) := fun _ => inner

theorem legible_declareScopes (extraction : Extraction) (declarator : Node) :
    LegibleStep (Scopes.declare extraction declarator) := by
  have bound (target value : Node) : LegibleStep (do
      let scopes ← get
      let bound ←
        if value.kind = .callExpression then Scopes.declare.liftExcept (scopes.declareCall? extraction target value)
        else if (value.kind = .identifier || value.kind = .memberExpression) && target.kind = .identifier then
          pure (scopes.declareAlias? extraction target value)
        else pure none
      modify fun scopes => bound.getD (scopes.shadow target)) := by
    refine LegibleStep.get.bind fun scopes => ?_
    dsimp only
    split
    · exact (legible_liftExcept (legible_declareCall? _ _ _ _)).bind fun _ => .modify _
    · split
      · exact (LegibleStep.pure _).bind fun _ => .modify _
      · exact (LegibleStep.pure _).bind fun _ => .modify _
  unfold Scopes.declare
  split
  next target value _ _ =>
    dsimp only
    split
    · refine (legible_liftExcept (legible_stringValue? value)).bind fun text => ?_
      split
      · exact (LegibleStep.modify _).bind fun _ => bound target _
      · exact bound target _
    · exact bound target _
  next => exact .pure ()

end Declarations

section Members

/-- The path to a member lies behind that to what it is a member of. -/
theorem legible_pathBelow {expression : Node}
    (inside : ∀ inner : Node, inner.size < expression.size → Legible (memberPath? inner)) (role : Role)
    (name : String) :
    Legible (α := Option (List String)) (do
      match _held : expression.child? role with
      | none => pure (some [name])
      | some object =>
        match _unwrapped : object.unwrap with
        | none => pure (some [name])
        | some inner => pure ((← memberPath? inner).map (· ++ [name]))) := by
  split
  · exact .pure _
  next object held =>
    split
    · exact .pure _
    next inner unwrapped =>
      have smaller : inner.size < expression.size :=
        Nat.lt_of_le_of_lt (Node.size_le_of_unwrap unwrapped) (Node.size_lt_of_child? held)
      exact (inside inner smaller).bind fun _ => .pure _

theorem legible_memberPath? (expression : Node) : Legible (memberPath? expression) := by
  induction size : expression.size using Nat.strongRecOn generalizing expression with
  | ind bound ih =>
    subst size
    have inside (inner : Node) (smaller : inner.size < expression.size) : Legible (memberPath? inner) :=
      ih inner.size smaller inner rfl
    rw [memberPath?]
    dsimp only
    split
    · split
      · split
        · exact legible_pathBelow inside _ _
        · exact .pure none
      · exact .pure none
    · split
      · refine (legible_stringValue? _).bind fun index => ?_
        split
        · exact legible_pathBelow inside _ _
        · exact .pure none
      · exact .pure none
    · exact .pure _

theorem legible_selectedKey? (extraction : Extraction) (function : Node) :
    Legible (selectedKey? extraction function) := by
  unfold selectedKey?
  split
  · exact .pure none
  · refine (legible_memberPath? _).bind fun path => ?_
    split <;> exact .pure _

end Members

section Elements

theorem legible_attributeText? (value : Option Node) : Legible (attributeText? value) := by
  unfold attributeText?
  split
  · exact .pure none
  · split
    · exact .pure _
    · split
      · exact legible_stringValue? _
      · exact .pure none

/-- Of two texts in one place the longer one counts, if it begins with the other. -/
theorem legible_longerPiece (first second : Option Piece) : Legible (α := Option Piece) (match first, second with
    | some (.text short), some (.text long) =>
      pure (some (.text (if Text.startsWith short long then long else short)))
    | first, _ => pure first) := by
  split <;> exact .pure _

theorem legible_pieceOfExpression (expression : Node) : Legible (pieceOfExpression expression) := by
  induction size : expression.size using Nat.strongRecOn generalizing expression with
  | ind bound ih =>
    subst size
    have inside (inner : Node) (smaller : inner.size < expression.size) : Legible (pieceOfExpression inner) :=
      ih inner.size smaller inner rfl
    rw [pieceOfExpression]
    simp only [pure_bind]
    split
    iterate 3
      split
      · exact .pure none
      next inner rest held => exact inside inner (Node.size_lt_of_mem_parts (held ▸ List.mem_cons_self))
    · split
      · split
        · exact .pure none
        next held => exact (inside _ (Node.size_lt_of_child? held)).bind fun _ => .pure none
      next held =>
        refine (inside _ (Node.size_lt_of_child? held)).bind fun first => ?_
        split
        · exact .pure first
        next held => exact (inside _ (Node.size_lt_of_child? held)).bind fun second => legible_longerPiece first second
    · exact (legible_stringValue? expression).bind fun _ => .pure _
    · exact .pure _
    · exact .pure _
    · exact (legible_properties expression).bind fun _ => .pure _
    · exact .pure _

theorem legible_piecesOf (element : Node) : Legible (piecesOf element) := by
  induction size : element.size using Nat.strongRecOn generalizing element with
  | ind bound ih =>
    subst size
    rw [piecesOf]
    split
    next =>
      refine (Legible.foldlM _ ?_).bind fun _ => .pure _
      rintro ⟨pieces, reached⟩ ⟨child, member⟩ _
      dsimp only
      split
      · split
        · exact (Legible.pure none).bind fun _ => .pure _
        · split
          · exact (Legible.pure _).bind fun _ => .pure _
          · exact (legible_pieceOfExpression _).bind fun _ => .pure _
      · split
        · have content := ih child.size (Node.size_lt_of_mem_children member) child rfl
          exact content.bind fun _ => (Legible.pure _).bind fun _ => .pure _
        · exact (Legible.pure []).bind fun _ => (Legible.pure _).bind fun _ => .pure _
    next => exact .pure []

theorem legible_contentText (kept : List String) (element : Node) : Legible (contentText kept element) := by
  unfold contentText
  split
  · exact (legible_piecesOf element).bind fun _ => .pure _
  · exact .pure ""

end Elements

theorem legible_location (file : String) (line : Int) (column : Nat) : Legible (Location.make file line column) :=
  fun _ => .place

end Proofs.SearchFailures

end Phrasebook
