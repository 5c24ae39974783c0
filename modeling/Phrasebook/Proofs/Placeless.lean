import Phrasebook.Proofs.PossibleTexts
import Phrasebook.Proofs.SearchFailures

/-! What is read from a syntax tree does not depend on where its nodes start in the source. So two nodes that are alike but
for places have the same literals, the same members and the same texts. -/

namespace Phrasebook

namespace Syntax.Node

/-- A node without the places where it and the nodes below it start. -/
def placeless : Node → Node
  | ⟨kind, role, text, _, children⟩ => ⟨kind, role, text, .first, placelessAll children⟩
where
  placelessAll : List Node → List Node
    | [] => []
    | child :: rest => child.placeless :: placelessAll rest

theorem placelessAll_eq (nodes : List Node) : placeless.placelessAll nodes = nodes.map placeless := by
  induction nodes with
  | nil => rfl
  | cons node nodes ih => rw [placeless.placelessAll, ih, List.map_cons]

/-- Whether two nodes are alike but for places. -/
def looksLike : Node → Node → Bool
  | ⟨kind, role, text, _, children⟩, ⟨otherKind, otherRole, otherText, _, others⟩ =>
    kind = otherKind && role = otherRole && text = otherText && allLookLike children others
where
  allLookLike : List Node → List Node → Bool
    | [], [] => true
    | node :: nodes, other :: others => node.looksLike other && allLookLike nodes others
    | _, _ => false

mutual

theorem placeless_eq_of_looksLike :
    ∀ {node other : Node}, node.looksLike other = true → node.placeless = other.placeless
  | ⟨kind, role, text, _, children⟩, ⟨_, _, _, _, others⟩, alike => by
    simp only [looksLike, Bool.and_eq_true, decide_eq_true_eq] at alike
    obtain ⟨⟨⟨rfl, rfl⟩, rfl⟩, below⟩ := alike
    rw [placeless, placeless, placelessAll_eq_of_allLookLike below]

theorem placelessAll_eq_of_allLookLike : ∀ {nodes others : List Node},
    looksLike.allLookLike nodes others = true → placeless.placelessAll nodes = placeless.placelessAll others
  | [], [], _ => rfl
  | node :: nodes, other :: others, alike => by
    obtain ⟨here, further⟩ := Bool.and_eq_true_iff.mp alike
    rw [placeless.placelessAll, placeless.placelessAll, placeless_eq_of_looksLike here,
      placelessAll_eq_of_allLookLike further]

end

variable (node : Node)

@[simp] theorem kind_placeless : node.placeless.kind = node.kind := by
  cases node
  rfl

@[simp] theorem role_placeless : node.placeless.role = node.role := by
  cases node
  rfl

@[simp] theorem text_placeless : node.placeless.text = node.text := by
  cases node
  rfl

@[simp] theorem children_placeless : node.placeless.children = node.children.map placeless := by
  cases node
  rw [placeless, placelessAll_eq]

@[simp] theorem parts_placeless : node.placeless.parts = node.parts.map placeless := by
  simp [parts, List.filter_map, Function.comp_def]

@[simp] theorem child?_placeless (role : Role) :
    node.placeless.child? role = (node.child? role).map placeless := by
  simp [child?, List.find?_map, Function.comp_def]

@[simp] theorem isWrapper_placeless : node.placeless.isWrapper = node.isWrapper := by simp [isWrapper]

@[simp] theorem quoted_placeless : node.placeless.quoted = node.quoted := by simp [quoted]

@[simp] theorem isPlainTemplate_placeless : node.placeless.isPlainTemplate = node.isPlainTemplate := by
  simp [isPlainTemplate, List.all_map, Function.comp_def]

@[simp] theorem unwrap_placeless : node.placeless.unwrap = node.unwrap.map placeless := by
  fun_induction unwrap node with
  | case1 node wrapper nothing =>
    rw [unwrap, isWrapper_placeless, if_pos wrapper]
    split
    · rfl
    next held => simp [nothing] at held
  | case2 node wrapper inner rest inside smaller ih =>
    rw [unwrap, isWrapper_placeless, if_pos wrapper]
    split
    next nothing => simp [inside] at nothing
    next held =>
      rw [parts_placeless, inside, List.map_cons] at held
      obtain ⟨rfl, -⟩ := List.cons.inj held
      exact ih
  | case3 node bare => exact unwrap_eq (by simpa using bare)

@[simp] theorem stringValue?_placeless : node.placeless.stringValue? = node.stringValue? := by
  cases held : node.unwrap <;> simp [stringValue?, held]

@[simp] theorem isHole_placeless : node.placeless.isHole = node.isHole := by simp [isHole]

theorem fixedTexts_placeless (start : String) (children : List Node) :
    fixedTexts start (children.map placeless) = fixedTexts start children := by
  induction children generalizing start with
  | nil => rfl
  | cons child children ih => simp [fixedTexts, ih]

@[simp] theorem templateTexts_placeless : node.placeless.templateTexts = node.templateTexts := by
  rw [templateTexts, children_placeless, fixedTexts_placeless, templateTexts]

@[simp] theorem holes_placeless : node.placeless.holes = node.holes.map placeless := by
  simp [holes, List.filter_map, List.filterMap_map, List.map_filterMap, Function.comp_def]

@[simp] theorem literal?_placeless : node.placeless.literal? = node.literal? := by
  cases held : node.unwrap <;> simp [literal?, held]

@[simp] theorem propertyName?_placeless : node.placeless.propertyName? = node.propertyName? := by
  unfold propertyName?
  rw [kind_placeless, text_placeless, stringValue?_placeless, parts_placeless]
  cases node.parts <;> simp

/-- A member of an object without places. -/
abbrev placelessMember (member : String × Node) : String × Node := (member.1, member.2.placeless)

theorem property?_placeless : node.placeless.property? = node.property?.map (Option.map placelessMember) := by
  unfold property?
  rw [kind_placeless, child?_placeless, child?_placeless]
  split
  next =>
    cases node.child? .key with
    | none => cases node.child? .value <;> rfl
    | some key =>
      simp only [Option.map_some, propertyName?_placeless]
      cases key.propertyName? with
      | error failure => rfl
      | ok name => cases name <;> cases node.child? .value <;> rfl
  next => simp [Except.map, pure, Except.pure]
  next => rfl

theorem mapM_property?_placeless (nodes : List Node) :
    (nodes.map placeless).mapM property? = (nodes.mapM property?).map (List.map (Option.map placelessMember)) := by
  induction nodes with
  | nil => rfl
  | cons node nodes ih =>
    rw [List.map_cons, List.mapM_cons, List.mapM_cons, ih, property?_placeless]
    cases node.property? with
    | error failure => rfl
    | ok found => cases nodes.mapM property? <;> rfl

theorem properties_placeless : node.placeless.properties = node.properties.map (List.map placelessMember) := by
  unfold properties
  rw [parts_placeless, mapM_property?_placeless]
  cases node.parts.mapM property? with
  | error failure => rfl
  | ok found =>
    refine congrArg Except.ok ?_
    rw [List.filterMap_map, List.map_filterMap]
    rfl

theorem objectProperties_placeless :
    node.placeless.objectProperties = node.objectProperties.map (List.map placelessMember) := by
  unfold objectProperties
  rw [unwrap_placeless]
  cases node.unwrap with
  | none => rfl
  | some inner =>
    simp only [Option.map_some, kind_placeless, properties_placeless]
    split <;> rfl

theorem property_placeless (name : String) :
    node.placeless.property name = (node.property name).map (Option.map placeless) := by
  unfold property
  rw [objectProperties_placeless]
  cases node.objectProperties with
  | error failure => rfl
  | ok members => exact congrArg Except.ok (Table.find?_map placeless name members)

@[simp] theorem propertyLiteral?_placeless (name : String) :
    node.placeless.propertyLiteral? name = node.propertyLiteral? name := by
  unfold propertyLiteral?
  rw [property_placeless]
  cases node.property name with
  | error failure => rfl
  | ok found => cases found <;> simp [Except.map, bind, Except.bind]

end Syntax.Node

namespace Proofs.Placeless

open PossibleTexts Syntax

section Texts

variable {α : Type} {step : Node → Except Failure α} {nodes : List Node}

theorem mapM_placeless (each : ∀ node ∈ nodes, step node.placeless = step node) :
    (nodes.map Node.placeless).mapM step = nodes.mapM step := by
  induction nodes with
  | nil => rfl
  | cons node nodes ih =>
    rw [List.map_cons, List.mapM_cons, List.mapM_cons, each node List.mem_cons_self,
      ih fun other member => each other (List.mem_cons_of_mem _ member)]

theorem typeTexts_placeless (keepEmpty : Bool) (type : Node) :
    typeTexts keepEmpty type.placeless = typeTexts keepEmpty type := by
  fun_induction typeTexts keepEmpty type with
  | case1 keepEmpty type isUnion ih =>
    rw [typeTexts]
    simp only [Node.kind_placeless, isUnion]
    rw [List.mapM_subtype (fun _ _ => rfl), List.unattach_attach, List.mapM_subtype (fun _ _ => rfl),
      List.unattach_attach, Node.parts_placeless, mapM_placeless ih]
  | case2 keepEmpty type isParenthesized nothing =>
    rw [typeTexts]
    simp only [Node.kind_placeless, isParenthesized]
    split
    · rfl
    next held => simp [nothing] at held
  | case3 keepEmpty type isParenthesized inner rest held smaller ih =>
    rw [typeTexts]
    simp only [Node.kind_placeless, isParenthesized]
    split
    next nothing => simp [held] at nothing
    next inside =>
      rw [Node.parts_placeless, held, List.map_cons] at inside
      obtain ⟨rfl, -⟩ := List.cons.inj inside
      exact ih
  | case4 keepEmpty type isLiteral nothing =>
    rw [typeTexts]
    simp [isLiteral, nothing]
  | case5 keepEmpty type isLiteral literal rest held isText =>
    rw [typeTexts]
    simp [isLiteral, held, isText]
  | case6 keepEmpty type isLiteral literal rest held noText =>
    rw [typeTexts]
    simp [isLiteral, held, noText]
  | case7 keepEmpty type isTemplate ih =>
    rw [typeTexts]
    simp only [Node.kind_placeless, isTemplate]
    rw [List.mapM_subtype (fun _ _ => rfl), List.unattach_attach, List.mapM_subtype (fun _ _ => rfl),
      List.unattach_attach, Node.holes_placeless, Node.templateTexts_placeless, mapM_placeless ih]
  | case8 keepEmpty type =>
    rw [typeTexts]
    simp only [Node.kind_placeless]

theorem textsAt_placeless {texts : Node → Except Failure (List String)} {part : Option Node}
    (each : ∀ node ∈ part, texts node.placeless = texts node) :
    textsAt texts (part.map Node.placeless) = textsAt texts part := by
  cases part with
  | none => rfl
  | some part => exact each part rfl

theorem textsOfField_placeless (constants : Constants) (object : Option Node) :
    textsOfField constants (object.map Node.placeless) = textsOfField constants object := by
  funext field
  cases object <;> cases field <;> simp [textsOfField]

theorem textsOfTyped_placeless {keepEmpty : Bool} {texts : Node → Except Failure (List String)} {parts : List Node}
    (each : ∀ node ∈ parts, texts node.placeless = texts node) :
    textsOfTyped keepEmpty texts (parts.map Node.placeless) = textsOfTyped keepEmpty texts parts := by
  match parts with
  | [] | [_] => rfl
  | value :: type :: _ =>
    simp only [List.map_cons, textsOfTyped, typeTexts_placeless, each value List.mem_cons_self]

theorem textsOf_placeless {constants : Constants} {keepEmpty : Bool}
    {texts : Bool → Node → Except Failure (List String)} {node : Node}
    (each : ∀ keepEmpty part, part.size < node.size → texts keepEmpty part.placeless = texts keepEmpty part) :
    textsOf constants keepEmpty texts node.placeless = textsOf constants keepEmpty texts node := by
  have atChild (keepEmpty : Bool) (role : Role) :
      textsAt (texts keepEmpty) (node.placeless.child? role) = textsAt (texts keepEmpty) (node.child? role) := by
    rw [Node.child?_placeless]
    exact textsAt_placeless fun part held => each keepEmpty part (Node.size_lt_of_child? held)
  have ofObject : textsOfField constants ((node.placeless.child? .object).bind Node.unwrap) =
      textsOfField constants ((node.child? .object).bind Node.unwrap) := by
    rw [Node.child?_placeless, ← textsOfField_placeless constants ((node.child? .object).bind Node.unwrap)]
    simp [Option.bind_map, Option.map_bind, Function.comp_def]
  unfold textsOf
  rw [Node.kind_placeless]
  simp only [atChild, ofObject]
  split <;> try rfl
  next => rw [Node.stringValue?_placeless]
  next =>
    rw [Node.templateTexts_placeless, Node.holes_placeless,
      mapM_placeless fun hole member => each true hole (Node.size_lt_of_mem_holes member)]
  next =>
    rw [Node.child?_placeless]
    cases node.child? .property <;> simp
  next =>
    rw [Node.child?_placeless]
    cases node.child? .index <;> simp
  next =>
    rw [Node.child?_placeless]
    cases node.child? .operator <;> simp
  iterate 3
    next => rw [Node.literal?_placeless]
  iterate 2
    next =>
      rw [Node.parts_placeless]
      exact textsOfTyped_placeless fun part member => each keepEmpty part (Node.size_lt_of_mem_parts member)
  next => rw [Node.text_placeless]

theorem possibleTexts_placeless (constants : Constants) (keepEmpty : Bool) (expression : Node) :
    possibleTexts constants keepEmpty expression.placeless = possibleTexts constants keepEmpty expression := by
  induction size : expression.size using Nat.strongRecOn generalizing keepEmpty expression with
  | ind _ ih =>
    subst size
    cases held : expression.unwrap with
    | none =>
      rw [possibleTexts_of_unwrap_eq_none held, possibleTexts_of_unwrap_eq_none (by simp [held])]
    | some node =>
      have inside : expression.placeless.unwrap = some node.placeless := by simp [held]
      rw [possibleTexts_eq held, possibleTexts_eq inside]
      refine textsOf_placeless fun keepEmpty part smaller => ih part.size ?_ keepEmpty part rfl
      exact Nat.lt_of_lt_of_le smaller (Node.size_le_of_unwrap held)

end Texts

section Readings

variable {first second : Option Node}

/-- Of two nodes that are alike either is there if the other one is. -/
theorem none_or_some_of_alike (alike : first.map Node.placeless = second.map Node.placeless) :
    (first = none ∧ second = none) ∨
      ∃ one two, first = some one ∧ second = some two ∧ one.placeless = two.placeless := by
  cases first <;> cases second <;> simp_all

theorem property_congr {one two : Node} (alike : one.placeless = two.placeless) (name : String) :
    (one.property name).map (Option.map Node.placeless) = (two.property name).map (Option.map Node.placeless) := by
  rw [← Node.property_placeless, alike, Node.property_placeless]

theorem attributeExpression?_placeless (value : Option Node) :
    attributeExpression? (value.map Node.placeless) = (attributeExpression? value).map Node.placeless := by
  cases value with
  | none => rfl
  | some value =>
    simp only [attributeExpression?, Option.map_some, Option.bind_some, Node.kind_placeless, Node.parts_placeless,
      List.head?_map]
    split
    · cases value.parts.head? <;> simp
    · rfl

theorem attributeText?_placeless (value : Option Node) :
    attributeText? (value.map Node.placeless) = attributeText? value := by
  cases value with
  | none => rfl
  | some value =>
    have within := attributeExpression?_placeless (some value)
    rw [Option.map_some] at within ⊢
    simp only [attributeText?, Node.kind_placeless, Node.quoted_placeless, within]
    split
    · rfl
    · cases attributeExpression? (some value) <;> simp

theorem attributeText?_congr (alike : first.map Node.placeless = second.map Node.placeless) :
    attributeText? first = attributeText? second := by
  rw [← attributeText?_placeless first, alike, attributeText?_placeless]

theorem attributeExpression?_congr (alike : first.map Node.placeless = second.map Node.placeless) :
    (attributeExpression? first).map Node.placeless = (attributeExpression? second).map Node.placeless := by
  rw [← attributeExpression?_placeless, alike, attributeExpression?_placeless]

theorem contextTexts_placeless (expression : Node) :
    Search.contextTexts expression.placeless = Search.contextTexts expression := by
  simp only [Search.contextTexts, Search.textsFromPlugins, Search.textsFromHook, Search.texts, Node.text_placeless,
    possibleTexts_placeless]

theorem contextsOf_placeless (expression : Option Node) :
    Search.contextsOf (expression.map Node.placeless) = Search.contextsOf expression := by
  have inside : (expression.map Node.placeless).bind Node.unwrap = (expression.bind Node.unwrap).map Node.placeless := by
    cases expression <;> simp
  unfold Search.contextsOf
  rw [inside]
  cases expression.bind Node.unwrap with
  | none => rfl
  | some node =>
    simp only [Option.map_some, Node.kind_placeless, Node.stringValue?_placeless, Node.literal?_placeless,
      contextTexts_placeless]

theorem contextsOf_congr (alike : first.map Node.placeless = second.map Node.placeless) :
    Search.contextsOf first = Search.contextsOf second := by
  rw [← contextsOf_placeless, alike, contextsOf_placeless]

theorem attempt_map {α β : Type} (result : Except Failure α) (convert : α → β) :
    Search.attempt (result.map convert) = convert <$> Search.attempt result := by
  cases result <;> rfl

theorem givesDefaults_placeless (options : Option Node) :
    Search.givesDefaults (options.map Node.placeless) = Search.givesDefaults options := by
  cases options with
  | none => rfl
  | some options =>
    simp only [Search.givesDefaults, Option.map_some, Node.objectProperties_placeless, attempt_map, bind_map_left,
      List.any_map, Function.comp_def]

theorem pluralForms_placeless (options : Option Node) (ordinal : Bool) :
    Search.pluralForms (options.map Node.placeless) ordinal = Search.pluralForms options ordinal := by
  cases options with
  | none => rfl
  | some options =>
    simp only [Search.pluralForms, Option.map_some, Node.objectProperties_placeless, attempt_map, bind_map_left,
      List.filterMap_map, Function.comp_def, Node.propertyLiteral?_placeless]

theorem givesDefaults_congr (alike : first.map Node.placeless = second.map Node.placeless) :
    Search.givesDefaults first = Search.givesDefaults second := by
  rw [← givesDefaults_placeless, alike, givesDefaults_placeless]

theorem pluralForms_congr (alike : first.map Node.placeless = second.map Node.placeless) :
    Search.pluralForms first = Search.pluralForms second := by
  funext ordinal
  rw [← pluralForms_placeless, alike, pluralForms_placeless]

theorem reportElementKey_congr {setting : Search.ElementSetting}
    (alike : first.map Node.placeless = setting.options.map Node.placeless) :
    Search.reportElementKey { setting with options := first } = Search.reportElementKey setting := by
  funext written
  simp only [Search.reportElementKey, pluralForms_congr alike]

end Readings

end Proofs.Placeless

end Phrasebook
