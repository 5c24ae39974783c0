import Phrasebook.Proofs.CallsAndElements
import Phrasebook.Proofs.Placeless

/-! What an element reads before it reports keys: the namespace beside them, whether something is counted, the context,
and the texts that it gives. All of it is read in front of the keys, so the search through an element has two parts, and
the second one depends on the element only in a few places. -/

namespace Phrasebook.Proofs.ElementReadings

open CallsAndElements Placeless SearchFailures SearchSteps SiteReports Syntax

variable {situation : Situation} {element : Node}

section Parts

/-- The options that an element gives. -/
def optionsOf (element : Node) : Option Node :=
  (attributeExpression? (attributeOf element "tOptions")).filter fun options => options.kind = .object

def textOf? : Option Literal → Option String
  | some (.text text) => some text
  | _ => none

/-- A namespace, or else the one among options. -/
def namespaceAmong (options : Option Node) (name : Option String) : Except Failure (Option String) :=
  match name, options with
  | none, some options => (options.propertyLiteral? "ns").map textOf?
  | name, _ => .ok name

/-- The namespace that an element gives beside its keys, by an attribute or else among its options. -/
def namespaceOf (element : Node) : Except Failure (Option String) :=
  attributeText? (attributeOf element "ns") >>= namespaceAmong (optionsOf element)

/-- What an element gives for a context, by an attribute or else among its options. -/
def contextOf (element : Node) : Except Failure (Option Node) :=
  if Table.has "context" (attributeTable element) then .ok (attributeExpression? (attributeOf element "context"))
  else
    match optionsOf element with
    | some options => options.property "context"
    | none => .ok none

/-- The keys that an element names: those in its key attribute, or else its content. -/
def namesOf (element : Node) (namespaceName : Option String) (content : String) : Search (List String) :=
  if Table.has "i18nKey" (attributeTable element) then
    Search.keysOfAttribute (attributeOf element "i18nKey") namespaceName
  else pure [content]

/-- Whether an element gives a default text. -/
def explicitOf (element : Node) (defaults : Option String) : Search Bool :=
  if defaults.isSome then pure true else Search.givesDefaults (optionsOf element)

/-- The binding of the function that an element is given. -/
def bindingOf (element : Node) : Search (Option Binding) :=
  match attributeExpression? (attributeOf element "t") with
  | some function => if function.kind = .identifier then Search.resolve function.text else pure none
  | none => pure none

/-- What an element says beside its keys. -/
structure Said where
  namespaceName : Option String
  hasCount : Bool
  context : Option Node
  content : String
  defaults : Option String

/-- How an element reports the keys that it names. -/
def reportKeys (element : Node) (said : Said) (keys : List String) : Search Unit := do
  if !keys.isEmpty then
    let explicit ← explicitOf element said.defaults
    let binding ← bindingOf element
    let (contexts, moreContexts) ← Search.contextsOf said.context
    let location ← Search.attempt (Location.make (← Search.file) element.start.line element.start.column)
    let setting : Search.ElementSetting :=
      { namespaceName := said.namespaceName
        binding, explicit, location, contexts, moreContexts
        options := optionsOf element
        hasCount := said.hasCount
        defaultText := said.defaults <|> (if Text.isBlankText said.content then none else some said.content)
        ordinal := Table.has "ordinal" (attributeTable element) }
    keys.forM (Search.reportElementKey setting)

end Parts

section Search

theorem attempt_bind {α β : Type} (result : Except Failure α) (next : α → Except Failure β) :
    Search.attempt (result >>= next) = Search.attempt result >>= fun value => Search.attempt (next value) := by
  cases result <;> rfl

/-- The search through an element reads what the element says, then the names of its keys, and then it reports them. -/
theorem reportTranslated_eq (element : Node) : Search.reportTranslated element = (do
    let extraction ← Search.extraction
    let namespaceName ← Search.attempt (namespaceOf element)
    let hasCount ← Search.attempt (countsBy element)
    let context ← Search.attempt (contextOf element)
    let content ← Search.attempt (contentText extraction.keptElements element)
    let defaults ← Search.attempt (attributeText? (attributeOf element "defaults"))
    let named ← namesOf element namespaceName content
    reportKeys element ⟨namespaceName, hasCount, context, content, defaults⟩
      (named.filter fun key => !Text.isBlankText key)) := by
  refine bind_congr fun extraction => ?_
  extract_lets attributes valueOf options withNamespace
  -- in each step what follows is the same on both sides, whichever way the step is taken
  trans Search.attempt (namespaceOf element) >>= withNamespace
  · unfold namespaceOf
    rw [attempt_bind, bind_assoc, show optionsOf element = options from rfl]
    refine bind_congr fun name => ?_
    clear_value withNamespace options
    cases name with
    | some name => cases options <;> rfl
    | none =>
      cases options with
      | none => rfl
      | some options =>
        simp -zeta only [namespaceAmong]
        rw [attempt_map, bind_map_left]
        refine bind_congr fun value => ?_
        rcases value with _ | value
        · rfl
        · cases value <;> rfl
  refine bind_congr fun namespaceName => ?_
  dsimp -zeta only [withNamespace]
  extract_lets withCount
  trans Search.attempt (countsBy element) >>= withCount
  · clear_value withCount
    unfold countsBy
    split
    · rfl
    · rw [show attributeOf element "values" = valueOf "values" from rfl]
      cases (attributeExpression? (valueOf "values")).filter fun values => values.kind = .object with
      | none => rfl
      | some values =>
        simp -zeta only
        rw [attempt_map, bind_map_left]
        rfl
  refine bind_congr fun hasCount => ?_
  dsimp -zeta only [withCount]
  extract_lets withContext
  trans Search.attempt (contextOf element) >>= withContext
  · unfold contextOf
    rw [show optionsOf element = options from rfl]
    clear_value withContext options
    split
    · rfl
    · cases options <;> rfl
  refine bind_congr fun context => bind_congr fun content => bind_congr fun defaults => ?_
  extract_lets withKeys
  trans namesOf element namespaceName content >>= withKeys
  · clear_value withKeys
    unfold namesOf
    split <;> rfl
  refine bind_congr fun named => ?_
  dsimp -zeta only [withKeys]
  unfold reportKeys
  extract_lets keys withExplicit
  split
  · trans explicitOf element defaults >>= withExplicit
    · clear_value withExplicit
      unfold explicitOf
      split <;> rfl
    refine bind_congr fun explicit => ?_
    dsimp -zeta only [withExplicit]
    extract_lets withBinding
    trans bindingOf element >>= withBinding
    · clear_value withBinding
      unfold bindingOf
      rw [show attributeOf element "t" = valueOf "t" from rfl]
      cases attributeExpression? (valueOf "t") with
      | none => rfl
      | some function =>
        simp -zeta only
        split <;> rfl
    rfl
  · rfl

end Search

section Steps

theorem legible_namespaceOf (element : Node) : Legible (namespaceOf element) := by
  refine (legible_attributeText? _).bind fun name => ?_
  unfold namespaceAmong
  split
  · exact (legible_propertyLiteral? _ _).bind fun value => .pure (textOf? value)
  · exact .ok _

theorem legible_countsBy (element : Node) : Legible (countsBy element) := by
  unfold countsBy
  split
  · exact .ok _
  · split
    · exact (legible_property _ _).bind fun found => .pure found.isSome
    · exact .ok _

theorem legible_contextOf (element : Node) : Legible (contextOf element) := by
  unfold contextOf
  split
  · exact .ok _
  · split
    · exact legible_property _ _
    · exact .ok _

variable {kind : Key → Prop}

theorem isOptions_of_mem : ∀ options ∈ optionsOf element, IsOptions element options := by
  intro options held
  obtain ⟨value, object⟩ := Option.filter_eq_some_iff.mp held
  exact .attribute value (of_decide_eq_true object)

theorem reports_explicitOf (defaults : Option String) :
    Reports situation kind (explicitOf element defaults) fun _ => True := by
  unfold explicitOf
  split
  · exact .done _
  · exact (reports_givesDefaults _ isOptions_of_mem).mono fun _ _ => trivial

theorem reports_bindingOf : Reports situation kind (bindingOf element) fun _ => True := by
  unfold bindingOf
  split
  · split
    · exact (reports_resolve _).mono fun _ _ => trivial
    · exact .done _
  · exact .done _

end Steps

end Phrasebook.Proofs.ElementReadings
