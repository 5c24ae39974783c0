import Phrasebook.Proofs.CatalogText
import Phrasebook.Proofs.ScriptNumbers

/-! Which values the nodes of a script's literals stand for. -/

namespace Phrasebook.Catalog.Value

open Decimal

mutual

/-- What a script gives back of a value that is written in it: whole numbers of more digits than are read and numbers of
64 bits that are not finite are no literals there. -/
def legible? : Value → Option Value
  | .whole value => if 4300 < (digitsOf value.natAbs).length then none else some (.whole value)
  | .real (.finite negative significand exponent) => some (.real (.finite negative significand exponent))
  | .real _ => none
  | .list items => some (.list (legibleItems items))
  | .object entries => some (.object (Table.ofList (legibleEntries entries)))
  | value => some value

def legibleItems : List Value → List Value
  | [] => []
  | item :: rest =>
    match legible? item with
    | some value => value :: legibleItems rest
    | none => legibleItems rest

def legibleEntries : List (String × Value) → List (String × Value)
  | [] => []
  | (name, value) :: rest =>
    match legible? value with
    | some value => (name, value) :: legibleEntries rest
    | none => legibleEntries rest

end

end Phrasebook.Catalog.Value

namespace Phrasebook.Proofs.ScriptNodes

open Catalog Decimal LiteralTexts Value ParseSteps QuotedText ScriptTokens Syntax

theorem legibleItems_eq (items : List Value) : legibleItems items = items.filterMap legible? := by
  induction items with
  | nil => rfl
  | cons item rest ih =>
    rw [legibleItems, List.filterMap_cons, ih]
    cases legible? item <;> rfl

/-- What a script gives back of an entry. -/
def legibleEntry? (entry : String × Value) : Option (String × Value) :=
  (legible? entry.2).map fun value => (entry.1, value)

theorem legibleEntries_eq (entries : Entries) : legibleEntries entries = entries.filterMap legibleEntry? := by
  induction entries with
  | nil => rfl
  | cons entry rest ih =>
    obtain ⟨name, value⟩ := entry
    rw [legibleEntries, List.filterMap_cons, ih, legibleEntry?]
    cases legible? value <;> rfl

section Settled

theorem settled_as (node : Node) (role : Role) : (node.as role).isSettled = node.isSettled := by
  cases node
  rfl

theorem allSettled_of_forall {inObject : Bool} {nodes : List Node}
    (each : ∀ node ∈ nodes, node.kind ≠ .objectAssignmentPattern ∧ node.isSettled = true) :
    allSettled inObject nodes = true := by
  induction nodes with
  | nil => rfl
  | cons node nodes ih =>
    obtain ⟨noPattern, settled⟩ := each node List.mem_cons_self
    have others := ih fun other member => each other (List.mem_cons_of_mem _ member)
    simp [allSettled, noPattern, settled, others]

theorem settled_of_children {kind : Kind} {role : Option Role} {text : String} {start : Position} {children : List Node}
    (each : ∀ node ∈ children, node.kind ≠ .objectAssignmentPattern ∧ node.isSettled = true) :
    (⟨kind, role, text, start, children⟩ : Node).isSettled = true :=
  allSettled_of_forall each

end Settled

section Literals

variable {kind : Kind} {role : Option Role} {text : String} {start : Position} {children : List Node}

/-- The kinds of nodes that stand for the literal they are, if any. -/
def Plain (kind : Kind) : Prop :=
  kind ∉ [.parenthesizedExpression, .nonNullExpression, .asExpression, .satisfiesExpression, .object, .array,
    .unaryExpression]

theorem bare_of_plain {node : Node} (plain : Plain node.kind) : node.isWrapper = false := by
  simp only [Plain, List.mem_cons, List.not_mem_nil, or_false, not_or] at plain
  simp [Node.isWrapper, plain]

theorem ofNode?_plain {node : Node} (plain : Plain node.kind) :
    ofNode? node = (do pure ((← node.literal?).map ofLiteral)) := by
  have unwrapped := Node.unwrap_eq (bare_of_plain plain)
  simp only [Plain, List.mem_cons, List.not_mem_nil, or_false, not_or] at plain
  rw [ofNode?]
  split
  next none => cases unwrapped.symm.trans none
  next inner same =>
    obtain rfl := Option.some.inj (unwrapped.symm.trans same)
    dsimp only
    split <;> simp_all

theorem stringValue?_string {text : String} {node : Node} (isString : IsString text node) (role : Option Role) :
    Node.stringValue? { node with role } = .ok (some text) := by
  obtain ⟨start, children, -, rfl⟩ := isString
  have inside : (Value.quote text).toList.drop 1 = text.toList.flatMap quotedChar ++ ['"'] := by
    rw [toList_quote]
    rfl
  refine stringValue?_of_spells rfl ?_
  rw [Node.quoted, inside, List.dropLast_concat, String.toList_ofList]
  exact spells_quoted text.toList

theorem ofNode?_string {text : String} {node : Node} (isString : IsString text node) (role : Option Role) :
    ofNode? { node with role } = .ok (some (.text text)) := by
  have known := stringValue?_string isString role
  obtain ⟨start, children, -, rfl⟩ := isString
  rw [ofNode?_plain (by simp [Plain]), Node.literal?, Node.unwrap_eq rfl]
  dsimp only
  rw [known]
  rfl

theorem propertyName?_string {text : String} {node : Node} (isString : IsString text node) (role : Option Role) :
    Node.propertyName? { node with role } = .ok (some text) := by
  have known := stringValue?_string isString role
  obtain ⟨start, children, -, rfl⟩ := isString
  exact known

/-- The kinds of the leaves that printed values are made of, besides strings. -/
def leafKinds : List Kind := [.trueLiteral, .falseLiteral, .nullLiteral, .numberLiteral, .identifier]

theorem leafKinds_cases {kind : Kind} (simple : kind ∈ leafKinds) : kind = .trueLiteral ∨ kind = .falseLiteral ∨
    kind = .nullLiteral ∨ kind = .numberLiteral ∨ kind = .identifier := by
  simpa [leafKinds] using simple

/-- The literal that a leaf is. -/
def leafLiteral? (kind : Kind) (text : List Char) : Option Literal :=
  match kind with
  | .trueLiteral => some (.truth true)
  | .falseLiteral => some (.truth false)
  | .nullLiteral => some .null
  | .numberLiteral => readNumber? (String.ofList text)
  | _ => none

variable {kind : Kind} {text : List Char} {node : Node}

theorem literal?_leaf (simple : kind ∈ leafKinds)
    (leaf : IsLeaf kind text node) (role : Option Role) :
    Node.literal? { node with role } = .ok (leafLiteral? kind text) := by
  obtain ⟨start, rfl⟩ := leaf
  rcases leafKinds_cases simple with rfl | rfl | rfl | rfl | rfl
  all_goals
    rw [Node.literal?, Node.unwrap_eq rfl]
    dsimp only
    rw [Node.stringValue?, Node.unwrap_eq rfl]
    rfl

theorem ofNode?_leaf (simple : kind ∈ leafKinds)
    (leaf : IsLeaf kind text node) (role : Option Role) :
    ofNode? { node with role } = .ok ((leafLiteral? kind text).map ofLiteral) := by
  have plain : Plain (Node.kind { node with role }) := by
    obtain ⟨start, rfl⟩ := leaf
    rcases leafKinds_cases simple with rfl | rfl | rfl | rfl | rfl <;> simp [Plain]
  rw [ofNode?_plain plain, literal?_leaf simple leaf]
  rfl

/-- A minus sign in front of a leaf. -/
theorem ofNode?_negated (simple : kind ∈ leafKinds)
    (leaf : IsLeaf kind text node) (role : Option Role) (more : List Char) (start : Position) :
    ofNode? ⟨.unaryExpression, role, String.ofList ('-' :: more), start, [node]⟩ =
      .ok ((leafLiteral? kind text).bind negated?) := by
  have known : node.literal? = .ok (leafLiteral? kind text) := by
    have same := literal?_leaf simple leaf node.role
    cases node
    exact same
  have parts : Node.parts ⟨.unaryExpression, role, String.ofList ('-' :: more), start, [node]⟩ = [node] := by
    obtain ⟨start, rfl⟩ := leaf
    rcases leafKinds_cases simple with rfl | rfl | rfl | rfl | rfl <;> rfl
  rw [ofNode?]
  split
  next none => cases (Node.unwrap_eq rfl).symm.trans none
  next inner same =>
    obtain rfl := Option.some.inj ((Node.unwrap_eq rfl).symm.trans same)
    dsimp only
    rw [String.toList_ofList, List.head?_cons, beq_self_eq_true, if_pos rfl, parts]
    dsimp only
    rw [known]
    rfl

end Literals

section Leaves

/-- An expression of which a value is read. -/
structure Holds (value : Value) (node : Node) : Prop where
  reads : ∀ role, ofNode? { node with role } = .ok (legible? value)
  settled : node.isSettled = true
  kind : node.kind ∉ [.comment, .operator, .objectAssignmentPattern, .arrowFunction]

theorem Holds.noPattern {value : Value} {node : Node} (holds : Holds value node) :
    node.kind ≠ .objectAssignmentPattern := by
  intro same
  have excluded := holds.kind
  rw [same] at excluded
  exact excluded (by decide)

theorem Holds.noArrow {value : Value} {node : Node} (holds : Holds value node) : node.kind ≠ .arrowFunction := by
  intro same
  have excluded := holds.kind
  rw [same] at excluded
  exact excluded (by decide)

theorem settled_leaf {kind : Kind} {text : List Char} {node : Node} (leaf : IsLeaf kind text node) :
    node.isSettled = true := by
  obtain ⟨start, rfl⟩ := leaf
  exact settled_of_children (List.forall_mem_nil _)

theorem holds_leaf {value : Value} {kind : Kind} {text : List Char} {node : Node}
    (simple : kind ∈ leafKinds)
    (means : (leafLiteral? kind text).map ofLiteral = legible? value) (leaf : IsLeaf kind text node) :
    Holds value node where
  reads := by
    intro role
    rw [ofNode?_leaf simple leaf, means]
  settled := settled_leaf leaf
  kind := by
    obtain ⟨start, rfl⟩ := leaf
    rcases leafKinds_cases simple with rfl | rfl | rfl | rfl | rfl <;> simp

theorem holds_string {text : String} {node : Node} (isString : IsString text node) : Holds (.text text) node where
  reads := fun role => ofNode?_string isString role
  settled := by
    obtain ⟨start, children, pieces, rfl⟩ := isString
    refine settled_of_children fun child member => ?_
    obtain ⟨kind, piece, text, start, rfl⟩ := pieces child member
    simp only [List.mem_cons, List.not_mem_nil, or_false] at piece
    refine ⟨?_, settled_of_children (List.forall_mem_nil _)⟩
    rcases piece with rfl | rfl <;> simp
  kind := by
    obtain ⟨start, children, pieces, rfl⟩ := isString
    simp

theorem holds_negated {value : Value} {kind : Kind} {text : List Char} {child : Node}
    (simple : kind ∈ leafKinds)
    (means : (leafLiteral? kind text).bind negated? = legible? value) (leaf : IsLeaf kind text child)
    (more : List Char) (start : Position) :
    Holds value ⟨.unaryExpression, none, String.ofList ('-' :: more), start, [child]⟩ where
  reads := by
    intro role
    rw [← means]
    exact ofNode?_negated simple leaf role more start
  settled := by
    refine settled_of_children (List.forall_mem_singleton.mpr ⟨?_, settled_leaf leaf⟩)
    obtain ⟨start, rfl⟩ := leaf
    rintro rfl
    revert simple
    decide
  kind := by simp

end Leaves

section Containers

variable {role : Option Role} {text : String} {start : Position} {nodes : List Node}

theorem mapM_eq_ok {α β γ : Type} {step : β → Except Failure γ} {given : α → γ} {items : List α} {nodes : List β}
    (each : List.Forall₂ (fun item node => step node = .ok (given item)) items nodes) :
    nodes.mapM step = .ok (items.map given) := by
  induction each with
  | nil => rfl
  | cons here _ ih =>
    rw [List.mapM_cons, here, ih]
    rfl

theorem forall_of_forall₂ {α β : Type} {related : α → β → Prop} {holds : β → Prop} {items : List α} {nodes : List β}
    (each : List.Forall₂ related items nodes) (implies : ∀ item node, related item node → holds node) :
    ∀ node ∈ nodes, holds node := by
  induction each with
  | nil => exact List.forall_mem_nil _
  | cons here _ ih => exact List.forall_mem_cons.mpr ⟨implies _ _ here, ih⟩

theorem Holds.ofNode? {value : Value} {node : Node} (holds : Holds value node) :
    Value.ofNode? node = .ok (legible? value) := by
  have reads := holds.reads node.role
  cases node
  exact reads

theorem ofNode?_array {items : List Value} (each : List.Forall₂ Holds items nodes) :
    ofNode? ⟨.array, role, text, start, nodes⟩ = .ok (legible? (.list items)) := by
  have parts : Node.parts ⟨.array, role, text, start, nodes⟩ = nodes := by
    refine List.filter_eq_self.mpr (forall_of_forall₂ each fun item node holds => ?_)
    have kind := holds.kind
    simp only [List.mem_cons, not_or] at kind
    exact decide_eq_true ⟨kind.1, kind.2.1⟩
  have values := mapM_eq_ok (each.imp fun item node holds => holds.ofNode?)
  rw [Value.ofNode?]
  split
  next none => cases (Node.unwrap_eq rfl).symm.trans none
  next inner same =>
    obtain rfl := Option.some.inj ((Node.unwrap_eq rfl).symm.trans same)
    dsimp only
    rw [List.mapM_subtype fun _ _ => rfl, List.unattach_attach, parts, values, legible?, legibleItems_eq]
    show Except.ok (some (Value.list ((items.map legible?).filterMap id))) = _
    rw [List.filterMap_map]
    rfl

/-- What an entry's node is: a name in quotes, and a node of which the entry's value is read. -/
def IsEntry (entry : String × Value) (node : Node) : Prop := ∃ start text, ∃ key value : Node,
  IsString entry.1 key ∧ Holds entry.2 value ∧
    node = ⟨.pair, none, text, start, [key.as .key, value.as .value]⟩

theorem parts_of_entries {kind : Kind} {entries : Entries} (each : List.Forall₂ IsEntry entries nodes) :
    Node.parts ⟨kind, role, text, start, nodes⟩ = nodes := by
  refine List.filter_eq_self.mpr (forall_of_forall₂ each ?_)
  rintro entry _ ⟨start, text, key, value, -, -, rfl⟩
  rfl

/-- The entries of an object whose members are pairs. -/
theorem entriesOf_pairs {entries : Entries} {kind : Kind} (each : List.Forall₂ IsEntry entries nodes) :
    entriesOf ⟨kind, role, text, start, nodes⟩ = .ok (Table.ofList (legibleEntries entries)) := by
  have parts : Node.parts ⟨kind, role, text, start, nodes⟩ = nodes := parts_of_entries each
  rw [← parts, ← List.attach_map_subtype_val (Node.parts _), List.forall₂_map_right_iff] at each
  rw [entriesOf, legibleEntries_eq]
  rw [@mapM_eq_ok _ _ _ _ legibleEntry? _ _ (each.imp _)]
  · show Except.ok (Table.ofList ((entries.map legibleEntry?).filterMap id)) = _
    rw [List.filterMap_map]
    rfl
  · rintro entry ⟨_, inside⟩ ⟨start, text, key, value, isKey, holds, rfl⟩
    have name : (key.as .key).propertyName? = .ok (some entry.1) := propertyName?_string isKey (some .key)
    have found : ofNode? (value.as .value) = .ok (legible? entry.2) := holds.reads (some .value)
    have keyed : Node.child? ⟨.pair, none, text, start, [key.as .key, value.as .value]⟩ .key = some (key.as .key) := rfl
    dsimp only
    rw [if_pos rfl, keyed]
    dsimp only
    rw [name]
    show (do pure ((← ofNode? (value.as .value)).map fun value => (entry.1, value))) = _
    rw [found]
    rfl

theorem ofNode?_object {entries : Entries} (each : List.Forall₂ IsEntry entries nodes) :
    ofNode? ⟨.object, role, text, start, nodes⟩ = .ok (legible? (.object entries)) := by
  rw [ofNode?]
  split
  next none => cases (Node.unwrap_eq rfl).symm.trans none
  next inner same =>
    obtain rfl := Option.some.inj ((Node.unwrap_eq rfl).symm.trans same)
    dsimp only
    rw [entriesOf_pairs each, legible?]
    rfl

theorem holds_array {items : List Value} (each : List.Forall₂ Holds items nodes) :
    Holds (.list items) ⟨.array, none, text, start, nodes⟩ where
  reads := fun _ => ofNode?_array each
  settled := settled_of_children (forall_of_forall₂ each fun _ _ holds => ⟨holds.noPattern, holds.settled⟩)
  kind := by simp

theorem settled_entry {entry : String × Value} {node : Node} (isEntry : IsEntry entry node) :
    node.isSettled = true := by
  obtain ⟨start, text, key, value, isKey, holds, rfl⟩ := isEntry
  have keyed := holds_string isKey
  have keySettled : (key.as .key).isSettled = true := (settled_as key .key).trans keyed.settled
  have valueSettled : (value.as .value).isSettled = true := (settled_as value .value).trans holds.settled
  exact settled_of_children
    (List.forall_mem_cons.mpr ⟨⟨keyed.noPattern, keySettled⟩, List.forall_mem_singleton.mpr ⟨holds.noPattern, valueSettled⟩⟩)

/-- The object of which entries are read. -/
def IsObject (entries : Entries) (node : Node) : Prop := ∃ text start nodes,
  List.Forall₂ IsEntry entries nodes ∧ node = ⟨.object, none, text, start, nodes⟩

theorem holds_object {entries : Entries} {node : Node} (isObject : IsObject entries node) :
    Holds (.object entries) node := by
  obtain ⟨text, start, nodes, each, rfl⟩ := isObject
  refine ⟨fun _ => ofNode?_object each, ?_, by simp⟩
  refine settled_of_children (forall_of_forall₂ each fun entry node isEntry => ⟨?_, settled_entry isEntry⟩)
  obtain ⟨start, text, key, value, -, -, rfl⟩ := isEntry
  simp

end Containers

end Phrasebook.Proofs.ScriptNodes
