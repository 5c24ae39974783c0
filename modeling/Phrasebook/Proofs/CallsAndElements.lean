import Phrasebook.Proofs.KeyNames

/-! A call of a translation function and an element that is given this function ask for keys alike: each cuts the
namespace from the key, puts the text of the binding in front of it, and reports it for a count and for contexts. They
do so by their own ways, and differ where a key is left with a blank segment, where it names an empty namespace, where
it refers to others, and where it ends as a key for an ordinal does. -/

namespace Phrasebook

/-- What a site asks for: a key, whether it depends on a count or an ordinal, and contexts. -/
structure Asking where
  key : String
  hasCount : Bool
  ordinal : Bool
  contexts : List String
  moreContexts : Bool
deriving DecidableEq, Repr

namespace Extraction

variable (extraction : Extraction) (binding : Option Binding)

/-- The namespace that a key names, in front of the mark, and the rest of the key. -/
def partsOf (key : String) : Option String × String :=
  match (extraction.namespaceSeparator.mark?).map fun mark => (mark, Text.split mark key) with
  | some (mark, first :: second :: rest) => (some first, Text.join mark (second :: rest))
  | _ => (none, key)

/-- The namespace of keys that name none. -/
def generalNamespace : String :=
  ((binding.bind Binding.defaultNamespace).filter (· ≠ "")).getD extraction.defaultNamespace

/-- The namespace of a key of a call whose options may give one, and what is left of the key. -/
def cut? (given : Option String) (key : String) : Option (String × String) :=
  match given.filter (· ≠ "") with
  | some name => some (name, key)
  | none =>
    let parts := extraction.partsOf key
    if Text.isBlankText parts.2 then none
    else some ((parts.1.filter (· ≠ "")).getD (extraction.generalNamespace binding), parts.2)

/-- A key behind the text that a binding puts in front of keys. There is none when a segment is left blank. -/
def whole? (key : String) : Option String :=
  match (binding.bind Binding.keyPrefix).filter (· ≠ "") with
  | none => some key
  | some start =>
    match extraction.keySeparator.mark? with
    | none => some (start ++ key)
    | some mark =>
      let whole := if Text.endsWith mark start then start ++ key else start ++ mark ++ key
      if (Text.split mark whole).any Text.isBlankText then none else some whole

/-- The ending by which a key of a call asks for an ordinal. -/
def ordinalEnding : String := extraction.pluralSeparator ++ "ordinal"

/-- The keys that the references in a text ask for. -/
def referred (text : String) : List Key :=
  (Reference.all extraction.nestingStart extraction.nestingEnd extraction.nestingOptionsSeparator text).flatMap
    (Reference.keys extraction)

end Extraction

namespace Asking

variable (extraction : Extraction) (binding : Option Binding) (asking : Asking)

/-- The kind of plural that is asked for, an ordinal in any case if a key asks for one. -/
def kind (byKey : Bool) : Option Bool :=
  if (asking.hasCount || byKey) && !extraction.disablePlurals then some (asking.ordinal || byKey) else none

def isPlain (byKey : Bool) : Bool :=
  (asking.kind extraction byKey).isNone && asking.contexts.isEmpty && !asking.moreContexts

/-- The names of the keys of a sighting: one for each context, and one without where catalogs need it. -/
def names (namespaceName text : String) (kind : Option Bool) : List KeyName :=
  asking.contexts.map (fun context => ⟨namespaceName, text ++ extraction.contextSeparator ++ context, kind⟩) ++
    if asking.contexts.isEmpty || (asking.moreContexts && (kind.isNone || extraction.generateBasePluralForms)) then
      [⟨namespaceName, text, kind⟩]
    else []

/-- The names of the keys that a call adds for a key of it without its ending. -/
def calledAs (byKey : Bool) (key : String) : List KeyName :=
  let parts := extraction.partsOf key
  if Text.isBlankText parts.2 then []
  else
    match extraction.whole? binding parts.2 with
    | none => []
    | some whole =>
      let namespaceName := (parts.1.filter (· ≠ "")).getD (extraction.generalNamespace binding)
      asking.names extraction namespaceName whole (asking.kind extraction byKey) ++
        if asking.isPlain extraction byKey then (extraction.referred whole).map Key.name else []

/-- The names of the keys that a call adds. -/
def called : List KeyName :=
  asking.calledAs extraction binding (Text.endsWith extraction.ordinalEnding asking.key)
    ((Text.dropEnd? extraction.ordinalEnding asking.key).getD asking.key)

/-- The names of the keys that an element adds. -/
def shown : List KeyName :=
  let parts := extraction.partsOf asking.key
  if Text.isBlankText parts.2 then []
  else
    let namespaceName :=
      ((parts.1 <|> binding.bind Binding.defaultNamespace).filter (· ≠ "")).getD extraction.defaultNamespace
    asking.names extraction namespaceName ((extraction.whole? binding parts.2).getD parts.2)
      (asking.kind extraction false)

/-- Where a call and an element add keys of the same names: nothing is left of the key without its namespace, or an
empty namespace stands for the same one in both, no segment is blank behind the text of the binding, and references
in the key ask for nothing else. -/
def Agrees : Prop :=
  let parts := extraction.partsOf asking.key
  Text.isBlankText parts.2 = true ∨
    (parts.1 = some "" → extraction.generalNamespace binding = extraction.defaultNamespace) ∧
    ∃ whole ∈ extraction.whole? binding parts.2, asking.isPlain extraction false = true →
      ∀ key ∈ extraction.referred whole,
        key.name = ⟨(parts.1.filter (· ≠ "")).getD (extraction.generalNamespace binding), whole, none⟩

end Asking

namespace Proofs.CallsAndElements

open Catalog KeyNames SearchFailures SearchSteps SiteReports Syntax

variable {situation : Situation} {binding : Option Binding}

instance {α : Type} [DecidableEq α] {situation : Situation} {step : Search α} {value : α} :
    Decidable (Gives situation step value) :=
  inferInstanceAs (Decidable ((outcome step situation.task situation.start).1 = .ok value))

/-- In a situation a step ends and adds keys of names. -/
def Adds (situation : Situation) (step : Search Unit) (names : List KeyName) : Prop :=
  ∃ seen, Yields situation step () seen ∧ seen.map Key.name = names

namespace Adds

variable {names later : List KeyName}

theorem nothing : Adds situation (Pure.pure ()) [] := ⟨[], .pure (), rfl⟩

theorem after {α : Type} {step : Search α} {next : α → Search Unit} {value : α} (one : Yields situation step value [])
    (two : Adds situation (next value) names) : Adds situation (step >>= next) names := by
  obtain ⟨seen, yields, same⟩ := two
  exact ⟨seen, one.after yields, same⟩

/-- The same where the value is told by an equation, which leaves the rest of the step as it is written. -/
theorem given {α : Type} {step : Search α} {next : α → Search Unit} {value : α} (one : Yields situation step value [])
    (two : ∀ given, given = value → Adds situation (next given) names) : Adds situation (step >>= next) names :=
  after one (two value rfl)

theorem bind {step : Search Unit} {next : Unit → Search Unit} (one : Adds situation step names)
    (two : Adds situation (next ()) later) : Adds situation (step >>= next) (names ++ later) := by
  obtain ⟨seen, yields, rfl⟩ := one
  obtain ⟨further, yieldsFurther, rfl⟩ := two
  exact ⟨_, yields.bind yieldsFurther, List.map_append⟩

end Adds

section Parts

theorem yields_extraction : Yields situation Search.extraction situation.extraction [] :=
  .of_gives reports_extraction rfl

theorem yields_warn (text : String) : Yields situation (Search.warn text) () [] := .of_gives (reports_warn text) rfl

theorem yields_whole? (key : String) :
    Yields situation (Search.withPrefix? binding key) (situation.extraction.whole? binding key) [] := by
  unfold Search.withPrefix? Extraction.whole?
  cases (binding.bind Binding.keyPrefix).filter (· ≠ "") with
  | none => exact .pure _
  | some start =>
    refine yields_extraction.after ?_
    cases situation.extraction.keySeparator.mark? with
    | none => exact .pure _
    | some mark =>
      dsimp only
      generalize (if Text.endsWith mark start = true then start ++ key else start ++ mark ++ key) = whole
      cases (Text.split mark whole).any Text.isBlankText with
      | true => exact (yields_warn _).after (.pure _)
      | false => exact .pure _

/-- A key stays at the end of the whole one. -/
theorem filled_whole? {extraction : Extraction} {key whole : String} (filled : Text.isBlankText key = false)
    (known : extraction.whole? binding key = some whole) : Text.isBlankText whole = false := by
  unfold Extraction.whole? at known
  split at known
  · obtain rfl := Option.some.inj known
    exact filled
  next start _ =>
  split at known
  · obtain rfl := Option.some.inj known
    exact filled_append.mpr (.inr filled)
  next mark _ =>
  extract_lets behind at known
  split at known
  · cases known
  obtain rfl := Option.some.inj known
  dsimp only [behind]
  split <;> exact filled_append.mpr (.inr filled)

theorem yields_splitNamespace {key : String} (filled : Text.isBlankText key = false) {options : Option Node}
    {given : Option String} (named : Gives situation (Search.namespaceOfOptions options) given) :
    Yields situation (Search.splitNamespace key options binding) (situation.extraction.cut? binding given key) [] := by
  have read := Yields.of_gives (reports_namespaceOfOptions options) named
  refine yields_extraction.after ?_
  extract_lets kept general
  refine read.after ?_
  unfold Extraction.cut? Extraction.partsOf
  dsimp only [kept, general]
  cases given.filter (· ≠ "") with
  | some name => exact .pure _
  | none =>
    dsimp only
    generalize (situation.extraction.namespaceSeparator.mark?).map (fun mark => (mark, Text.split mark key)) = cut
    rcases cut with _ | ⟨mark, _ | ⟨first, _ | ⟨second, rest⟩⟩⟩
    case some.cons.cons =>
      dsimp only
      cases Text.isBlankText (Text.join mark (second :: rest)) with
      | true => exact (yields_warn _).after (.pure _)
      | false => exact .pure _
    all_goals
      dsimp only
      rw [filled]
      exact .pure _

end Parts

section Sightings

theorem yields_addAll {keys : List Key} (usable : ∀ key ∈ keys, Usable key) :
    Yields situation (keys.forM Search.add) () keys := by
  have each : Yields situation (keys.forM Search.add) () (keys.flatMap ([·])) :=
    .forM fun key member => yields_add (usable key member)
  rwa [List.flatMap_singleton'] at each

variable {asking : Asking} {sighting : Sighting}

theorem names_sighting {extraction : Extraction} (contexts : sighting.contexts = asking.contexts)
    (more : sighting.moreContexts = asking.moreContexts) :
    (sighting.keys extraction).map Key.name =
      asking.names extraction sighting.namespaceName sighting.key (sighting.plural.map PluralRequest.ordinal) := by
  simp only [Sighting.keys, Sighting.needsBase, Asking.names, contexts, more, List.map_append, List.map_map,
    Option.isNone_map]
  split <;> rfl

theorem yields_report (filled : Text.isBlankText sighting.key = false) :
    Yields situation (Search.report sighting) () (sighting.keys situation.extraction) :=
  yields_extraction.after (yields_addAll fun _ => usable_of_mem_sighting filled)

/-- A sighting of what is asked for adds the keys that are asked for. -/
theorem adds_report {kind : Option Bool} (filled : Text.isBlankText sighting.key = false)
    (contexts : sighting.contexts = asking.contexts) (more : sighting.moreContexts = asking.moreContexts)
    (plural : sighting.plural.map PluralRequest.ordinal = kind) :
    Adds situation (Search.report sighting)
      (asking.names situation.extraction sighting.namespaceName sighting.key kind) := by
  refine ⟨_, yields_report filled, ?_⟩
  rw [names_sighting contexts more, plural]

theorem yields_reportReferences (text : String) :
    Yields situation (Search.reportReferences text) () (situation.extraction.referred text) :=
  yields_extraction.after (.forM fun _ _ => yields_addAll fun _ member => (of_mem_reference member).1)

end Sightings

section Options

/-- The value of a member of options, none where there are none. -/
def memberOf (options : Option Node) (name : String) : Except Failure (Option Node) :=
  match options with
  | none => .ok none
  | some options => options.property name

/-- Options ask for the count, the ordinal and the contexts that are asked for, and for no namespace and no default. -/
structure OptionsAsk (situation : Situation) (options : Option Node) (asking : Asking) : Prop where
  unnamed : Gives situation (Search.namespaceOfOptions options) none
  undefaulted : Gives situation (Search.givesDefaults options) false
  count : (memberOf options "count").map Option.isSome = .ok asking.hasCount
  ordinal : ∃ value, Gives situation (Search.optionValue options "ordinal") value ∧
    (value == some (.truth true)) = asking.ordinal
  objects : ∃ value, Gives situation (Search.optionValue options "returnObjects") value
  context : Gives situation (Search.attempt (memberOf options "context") >>= Search.contextsOf)
    (asking.contexts, asking.moreContexts)

variable {options : Option Node} {asking : Asking}

/-- What gives a value behind a result that is read has read the result. -/
theorem given_of_attempt {α β : Type} {result : Except Failure α} {next : α → Search β} {value : β}
    (gives : Gives situation (Search.attempt result >>= next) value) :
    ∃ read, result = .ok read ∧ Gives situation (next read) value := by
  cases result with
  | error failure =>
    have failed : outcome (Search.attempt (.error failure) >>= next) situation.task situation.start = _ :=
      run_bind_error rfl
    cases (congrArg Prod.fst failed).symm.trans gives
  | ok read =>
    have ran : outcome (Search.attempt (.ok read) >>= next) situation.task situation.start = _ := run_bind_ok rfl
    exact ⟨read, rfl, (congrArg Prod.fst ran).symm.trans gives⟩

/-- Options without defaults have no member whose name begins like that of a default. -/
theorem properties_of_undefaulted {node : Node}
    (undefaulted : Gives situation (Search.givesDefaults (some node)) false) :
    ∃ properties, node.objectProperties = .ok properties ∧
      ∀ entry ∈ properties, Text.startsWith "defaultValue" entry.1 = false := by
  obtain ⟨properties, held, same⟩ := given_of_attempt undefaulted
  have absent := List.any_eq_false.mp (Except.ok.inj same)
  exact ⟨properties, held, fun entry member => by simpa using absent entry member⟩

theorem yields_givesDefaults {given : Bool} (gives : Gives situation (Search.givesDefaults options) given) :
    Yields situation (Search.givesDefaults options) given [] := by
  cases options with
  | none =>
    obtain rfl := Except.ok.inj gives
    exact .pure false
  | some node =>
    obtain ⟨properties, held, same⟩ := given_of_attempt gives
    obtain rfl := Except.ok.inj same
    exact (Yields.attempt (legible_objectProperties node) held).after (.pure _)

theorem yields_noDefault (undefaulted : Gives situation (Search.givesDefaults options) false) :
    Yields situation (Search.optionValue options "defaultValue") none [] := by
  refine .of_gives (reports_optionValue options "defaultValue") ?_
  cases options with
  | none => rfl
  | some node =>
    obtain ⟨properties, held, others⟩ := properties_of_undefaulted undefaulted
    have absent : Table.find? "defaultValue" properties = none := by
      refine Option.eq_none_iff_forall_ne_some.mpr fun value found => ?_
      have starts : Text.startsWith "defaultValue" "defaultValue" = true := by decide +kernel
      exact Bool.false_ne_true ((others _ (Table.mem_of_find? found)).symm.trans starts)
    show node.propertyLiteral? "defaultValue" = .ok none
    simp only [Node.propertyLiteral?, Node.property, held]
    simp [absent, bind, Except.bind, pure, Except.pure]

theorem yields_noForms (undefaulted : Gives situation (Search.givesDefaults options) false) (ordinal : Bool) :
    Yields situation (Search.pluralForms options ordinal) [] [] := by
  cases options with
  | none => exact .pure []
  | some node =>
    obtain ⟨properties, held, others⟩ := properties_of_undefaulted undefaulted
    refine yields_extraction.after ?_
    extract_lets separator start
    refine (Yields.attempt (legible_objectProperties node) held).after ?_
    extract_lets named
    have nothing : named = [] := by
      refine List.filterMap_eq_nil_iff.mpr ?_
      rintro ⟨name, value⟩ member
      cases dropped : Text.dropStart? start name with
      | none => simp [dropped]
      | some category => cases (others _ member).symm.trans (startsWith_of_dropStart? dropped)
    rw [nothing]
    exact .pure []

end Options

section Calls

theorem except_map_eq_ok {α β : Type} {result : Except Failure α} {convert : α → β} {value : β}
    (same : result.map convert = .ok value) : ∃ read, result = .ok read ∧ convert read = value := by
  cases result with
  | error failure => cases same
  | ok read => exact ⟨read, rfl, Except.ok.inj same⟩

variable {asking : Asking}

theorem adds_reportCallKey {call : Search.CallSetting} (asks : OptionsAsk situation call.options asking)
    (undefaulted : call.callDefault = none) (unselected : call.isSelector = false) (isLast : Bool) {key : String}
    (filled : Text.isBlankText key = false) :
    Adds situation (Search.reportCallKey call none false isLast key)
      (asking.calledAs situation.extraction call.binding call.ordinalByKey key) := by
  obtain ⟨contextNode, read, contexts⟩ := given_of_attempt asks.context
  obtain ⟨ordinal, readOrdinal, ordinalAsked⟩ := asks.ordinal
  obtain ⟨objects, readObjects⟩ := asks.objects
  have cut : Yields situation (Search.splitNamespace key call.options call.binding)
      (situation.extraction.cut? call.binding none key) [] := yields_splitNamespace filled asks.unnamed
  unfold Extraction.cut? at cut
  rw [Option.filter_none] at cut
  -- the names follow the cases of the step: whenever it ends early, what is asked for is nothing
  generalize asked : asking.calledAs situation.extraction call.binding call.ordinalByKey key = names
  rw [Asking.calledAs] at asked
  refine .after yields_extraction ?_
  extract_lets options default explicit
  generalize situation.extraction.partsOf key = parts at cut asked
  obtain ⟨first, inner⟩ := parts
  refine .given cut fun found same => ?_
  split
  next =>
    dsimp only at same asked
    split at same
    next blank =>
      rw [if_pos blank] at asked
      exact asked ▸ .nothing
    next => cases same
  next namespaceName rest =>
  dsimp only at same asked
  split at same
  · cases same
  next filledInner =>
  obtain ⟨rfl, rfl⟩ := Prod.mk.inj (Option.some.inj same)
  rw [if_neg filledInner] at asked
  refine .given (yields_whole? rest) fun found same => ?_
  rw [← same] at asked
  split
  · exact asked ▸ .nothing
  next whole =>
  extract_lets unstated withContext
  suffices adds : Adds situation (withContext (contextNode, asking.hasCount)) names by
    have count : (memberOf options "count").map Option.isSome = .ok asking.hasCount := asks.count
    have context : memberOf options "context" = .ok contextNode := read
    clear_value withContext options
    cases options with
    | none =>
      obtain rfl := Except.ok.inj context
      obtain counts := Except.ok.inj count
      rw [← counts] at adds
      exact .after (.pure _) adds
    | some options =>
      obtain ⟨found, held, counts⟩ := except_map_eq_ok count
      rw [← counts] at adds
      exact .after (.attempt (legible_property _ _) context) (.after (.attempt (legible_property _ _) held)
        (.after (.pure _) adds))
  dsimp -zeta only [withContext]
  have given : Yields situation (Search.contextsOf contextNode) (asking.contexts, asking.moreContexts) [] :=
    .of_gives (reports_contextsOf contextNode) contexts
  refine .after given ?_
  dsimp -zeta only
  extract_lets withPlural
  suffices adds : ∀ plural : Option PluralRequest,
      plural.map PluralRequest.ordinal = asking.kind situation.extraction call.ordinalByKey →
      Adds situation (withPlural plural) names by
    clear_value withPlural
    unfold Asking.kind at adds
    split
    next wanted =>
      have forms := yields_noForms asks.undefaulted (ordinal == some (.truth true) || call.ordinalByKey)
      refine .after (.of_gives (reports_optionValue options "ordinal") readOrdinal) (.after forms ?_)
      refine .after (.pure _) (adds _ ?_)
      rw [if_pos wanted, ← ordinalAsked]
      rfl
    next unwanted =>
      refine .after (.pure _) (adds none ?_)
      rw [if_neg unwanted]
      rfl
  intro plural kind
  dsimp -zeta only [withPlural]
  extract_lets withObject
  suffices adds : ∀ isOpaque, Adds situation (withObject isOpaque) names by
    clear_value withObject
    rw [unselected]
    exact .after (.of_gives (reports_optionValue options "returnObjects") readObjects) (.after (.pure _) (adds _))
  intro isOpaque
  dsimp -zeta only [withObject]
  extract_lets sighting
  have plain : sighting.isPlain = asking.isPlain situation.extraction call.ordinalByKey := by
    rw [Asking.isPlain, ← kind, Option.isNone_map]
    rfl
  have filledWhole : Text.isBlankText sighting.key = false :=
    filled_whole? (Bool.eq_false_iff.mpr filledInner) same.symm
  rw [← asked]
  refine (adds_report filledWhole rfl rfl kind).bind ?_
  rw [plain]
  split
  · rw [← List.append_nil (List.map _ _)]
    refine .bind ⟨_, yields_reportReferences whole, rfl⟩ ?_
    dsimp only [default]
    rw [undefaulted]
    exact .nothing
  · exact .nothing

/-- A call of a translation function that has a binding or a known name asks for one key, and has no default text. -/
structure CallAsks (situation : Situation) (call : Node) (binding : Option Binding) (asking : Asking) : Prop where
  function : ∃ callee, (call.child? .function).bind Node.memberChain? = some callee ∧
    situation.scopes.resolve callee = binding ∧
    (binding.isSome || matchesFunction situation.extraction.functions callee) = true
  key : ∃ first further, call.callArguments = first :: further ∧
    Gives situation (Search.keysOfArgument first) ([asking.key], false)
  options : ∃ options, Gives situation (Search.defaultAndOptions call.callArguments) (none, options) ∧
    OptionsAsk situation options asking
  line : 1 ≤ call.start.line

theorem yields_file : Yields situation Search.file situation.task.file [] := .of_gives reports_file rfl

theorem yields_resolve (name : String) : Yields situation (Search.resolve name) (situation.scopes.resolve name) [] :=
  .of_gives (reports_resolve name) rfl

/-- A place in a file whose lines are counted from one is told. -/
theorem exists_location {file : String} {line column : Nat} (counted : 1 ≤ line) :
    ∃ location, Location.make file line column = .ok location := by
  refine ⟨_, if_neg ?_⟩
  omega

theorem blank_append {first second : String} :
    Text.isBlankText (first ++ second) = true ↔ Text.isBlankText first = true ∧ Text.isBlankText second = true := by
  rw [Text.isBlankText, String.toList_append, List.all_append, Bool.and_eq_true]
  rfl

/-- Where a key is blank, what is left of it without its namespace is. -/
theorem blank_partsOf {extraction : Extraction} {key : String} (blank : Text.isBlankText key = true) :
    Text.isBlankText (extraction.partsOf key).2 = true := by
  unfold Extraction.partsOf
  split
  next mark first second rest parts =>
    obtain ⟨front, whole⟩ := exists_front parts
    rw [whole] at blank
    exact (blank_append.mp blank).2
  next => exact blank

theorem calledAs_of_blank {extraction : Extraction} {byKey : Bool} {key : String}
    (blank : Text.isBlankText key = true) : asking.calledAs extraction binding byKey key = [] :=
  if_pos (blank_partsOf blank)

theorem adds_reportCall {call : Node} (asks : CallAsks situation call binding asking) :
    Adds situation (Search.reportCall call none none) (asking.called situation.extraction binding) := by
  obtain ⟨callee, chain, resolved, known⟩ := asks.function
  obtain ⟨first, further, arguments, gives⟩ := asks.key
  obtain ⟨options, read, optionsAsk⟩ := asks.options
  have place : ∃ location, Location.make situation.task.file call.start.line call.start.column = .ok location :=
    exists_location asks.line
  obtain ⟨location, made⟩ := place
  refine .after yields_extraction ?_
  rw [chain]
  dsimp -zeta only
  refine .after (yields_resolve callee) ?_
  rw [resolved, if_pos known]
  simp -zeta only [arguments]
  refine .after (.of_gives (reports_keysOfArgument first) gives) ?_
  dsimp -zeta only
  extract_lets ending ordinalByKey nonblank unmarked keys
  obtain ⟨cut, whole⟩ := exists_getD_dropEnd? ending asking.key
  cases filled : Text.isBlankText ((Text.dropEnd? ending asking.key).getD asking.key) with
  | true =>
    have nothing : keys = [] := by
      refine List.filter_eq_nil_iff.mpr fun key member => ?_
      obtain ⟨written, inside, rfl⟩ := List.mem_map.mp member
      obtain rfl := List.mem_singleton.mp (List.mem_filter.mp inside).1
      rw [filled]
      decide
    have unasked : asking.called situation.extraction binding = [] := calledAs_of_blank filled
    rw [nothing, unasked]
    exact .nothing
  | false =>
    have filledKey : Text.isBlankText asking.key = false := whole ▸ filled_append.mpr (.inl filled)
    have marked : ordinalByKey = Text.endsWith ending asking.key := by
      simp [ordinalByKey, filledKey]
    have single : keys = [(Text.dropEnd? ending asking.key).getD asking.key] := by
      simp [keys, unmarked, nonblank, filledKey, filled]
    clear_value keys ordinalByKey
    subst single marked
    simp -zeta only [List.isEmpty_cons, Bool.not_false, if_true]
    rw [← arguments]
    refine .after (.of_gives reports_defaultAndOptions read) ?_
    refine .after (yields_noDefault optionsAsk.undefaulted) ?_
    extract_lets optionDefault
    refine .after (yields_givesDefaults optionsAsk.undefaulted) ?_
    refine .after yields_file (.after (.attempt (legible_location _ _ _) made) ?_)
    rw [← List.append_nil (asking.called _ _)]
    exact .bind (adds_reportCallKey optionsAsk rfl rfl true filled) .nothing

end Calls

section Elements

/-- The value of an attribute, none where it is not there or has no value. -/
def attributeOf (element : Node) (name : String) : Option Node := (Table.find? name (attributeTable element)).join

/-- Whether an element has a count, as an attribute or among its values. -/
def countsBy (element : Node) : Except Failure Bool :=
  if Table.has "count" (attributeTable element) then .ok true
  else
    match (attributeExpression? (attributeOf element "values")).filter fun values => values.kind = .object with
    | some values => (values.property "count").map Option.isSome
    | none => .ok false

/-- An element whose content is translated is given the translation function of a binding and asks for one key. It has
no namespace and no options, and its texts can be read. -/
structure ElementAsks (situation : Situation) (element : Node) (binding : Option Binding) (asking : Asking) : Prop where
  translated : isTranslated situation.extraction.components element = true
  function : ∃ function, attributeExpression? (attributeOf element "t") = some function ∧ function.kind = .identifier ∧
    situation.scopes.resolve function.text = binding
  key : Table.has "i18nKey" (attributeTable element) = true ∧
    Gives situation (Search.keysOfAttribute (attributeOf element "i18nKey") none) [asking.key]
  unnamed : attributeOf element "ns" = none
  optionless : attributeOf element "tOptions" = none
  count : countsBy element = .ok asking.hasCount
  ordinal : Table.has "ordinal" (attributeTable element) = asking.ordinal
  context : Gives situation (Search.contextsOf (attributeExpression? (attributeOf element "context")))
    (asking.contexts, asking.moreContexts)
  content : ∃ content, contentText situation.extraction.keptElements element = .ok content
  defaults : ∃ text, attributeText? (attributeOf element "defaults") = .ok text
  line : 1 ≤ element.start.line

variable {asking : Asking}

theorem adds_reportElementKey {element : Search.ElementSetting} (unnamed : element.namespaceName = none)
    (optionless : element.options = none) (count : element.hasCount = asking.hasCount)
    (ordinal : element.ordinal = asking.ordinal) (contexts : element.contexts = asking.contexts)
    (more : element.moreContexts = asking.moreContexts) :
    Adds situation (Search.reportElementKey element asking.key)
      (asking.shown situation.extraction element.binding) := by
  refine .after yields_extraction ?_
  rw [unnamed]
  split
  next given? key cut =>
  have parts : situation.extraction.partsOf asking.key = (given?, key) := by
    rw [← cut]
    unfold Extraction.partsOf
    generalize (situation.extraction.namespaceSeparator.mark?).map
      (fun mark => (mark, Text.split mark asking.key)) = cut
    rcases cut with _ | ⟨mark, _ | ⟨first, _ | ⟨second, rest⟩⟩⟩ <;> rfl
  rw [Asking.shown, parts]
  dsimp -zeta only
  cases filled : Text.isBlankText key with
  | true => exact .nothing
  | false =>
    extract_lets further namespaceName
    simp -zeta only [Bool.not_false, if_true, Bool.false_eq_true, if_false]
    suffices adds : ∀ found, Text.isBlankText found.2 = false → Adds situation (further found)
        (asking.names situation.extraction ((found.1.filter (· ≠ "")).getD situation.extraction.defaultNamespace)
          found.2 (asking.kind situation.extraction false)) by
      clear_value further
      dsimp only [namespaceName]
      cases element.binding with
      | none =>
        have alone : (given? <|> none) = given? := by cases given? <;> rfl
        rw [Option.bind_none, alone]
        exact .after (.pure _) (adds _ filled)
      | some binding =>
        refine .after (yields_whole? key) (.after (.pure _) (adds _ ?_))
        cases known : situation.extraction.whole? (some binding) key with
        | none => exact filled
        | some whole => exact filled_whole? filled known
    rintro ⟨given?, whole⟩ filled
    dsimp -zeta only [further]
    extract_lets withPlural
    have adds {plural : Option PluralRequest}
        (kind : plural.map PluralRequest.ordinal = asking.kind situation.extraction false) :
        Adds situation (withPlural plural) _ := adds_report filled contexts more kind
    clear_value withPlural
    rw [optionless, count, ordinal]
    unfold Asking.kind at adds ⊢
    split
    next wanted =>
      refine .after (.pure []) (.after (.pure _) (adds ?_))
      rw [if_pos (by rwa [Bool.or_false]), Bool.or_false]
      rfl
    next unwanted =>
      refine .after (.pure _) (adds ?_)
      rw [if_neg (by rwa [Bool.or_false])]
      rfl

theorem adds_reportTranslated {element : Node} (asks : ElementAsks situation element binding asking) :
    Adds situation (Search.reportTranslated element) (asking.shown situation.extraction binding) := by
  obtain ⟨function, bound, identifier, resolved⟩ := asks.function
  obtain ⟨keyed, gives⟩ := asks.key
  obtain ⟨content, shown⟩ := asks.content
  obtain ⟨defaults, stated⟩ := asks.defaults
  have place : ∃ location, Location.make situation.task.file element.start.line element.start.column = .ok location :=
    exists_location asks.line
  obtain ⟨location, made⟩ := place
  refine .after yields_extraction ?_
  extract_lets attributes valueOf options withNamespace
  have optionless : options = none := by
    have absent : attributeExpression? (valueOf "tOptions") = none := congrArg attributeExpression? asks.optionless
    dsimp only [options]
    rw [absent, Option.filter_none]
  clear_value options
  subst optionless
  refine .after (.attempt (legible_attributeText? _) (congrArg attributeText? asks.unnamed)) ?_
  refine .after (.pure none) ?_
  dsimp -zeta only [withNamespace]
  extract_lets withCount
  suffices adds : Adds situation (withCount asking.hasCount) (asking.shown situation.extraction binding) by
    clear_value withCount
    have count := asks.count
    unfold countsBy at count
    split
    next there =>
      rw [if_pos there] at count
      rw [← Except.ok.inj count] at adds
      exact .after (.pure true) adds
    next absent =>
      rw [if_neg absent] at count
      have read : attributeOf element "values" = valueOf "values" := rfl
      rw [read] at count
      split
      next values known =>
        rw [known] at count
        obtain ⟨found, held, counts⟩ := except_map_eq_ok count
        rw [← counts] at adds
        exact .after (.attempt (legible_property _ _) held) (.after (.pure _) adds)
      next known =>
        rw [known] at count
        rw [← Except.ok.inj count] at adds
        exact .after (.pure false) adds
  dsimp -zeta only [withCount]
  extract_lets withContext
  suffices adds : Adds situation (withContext (attributeExpression? (valueOf "context")))
      (asking.shown situation.extraction binding) by
    clear_value withContext
    split
    next => exact .after (.pure _) adds
    next absent =>
      have missing : Table.find? "context" attributes = none := by
        simpa only [Table.has, Bool.not_eq_true, Option.isSome_eq_false_iff, Option.isNone_iff_eq_none] using absent
      have unset : valueOf "context" = none := congrArg Option.join missing
      rw [unset] at adds
      exact .after (.pure none) adds
  -- the content and the default decide about texts only
  refine .after (.attempt (legible_contentText _ _) shown) ?_
  refine .after (.attempt (legible_attributeText? _) stated) ?_
  extract_lets withKeys
  rw [if_pos keyed]
  have keys : Yields situation (Search.keysOfAttribute (valueOf "i18nKey") none) [asking.key] [] :=
    .of_gives (reports_keysOfAttribute _ _) gives
  refine .after keys ?_
  dsimp -zeta only [withKeys]
  extract_lets keys withExplicit
  cases filled : Text.isBlankText asking.key with
  | true =>
    have nothing : keys = [] := by simp [keys, filled]
    have unasked : asking.shown situation.extraction binding = [] := if_pos (blank_partsOf filled)
    rw [nothing, unasked]
    exact .nothing
  | false =>
    have single : keys = [asking.key] := by simp [keys, filled]
    clear_value keys
    subst single
    suffices adds : ∀ explicit, Adds situation (withExplicit explicit) (asking.shown situation.extraction binding) by
      clear_value withExplicit
      split
      · split
        · exact .after (.pure true) (adds _)
        · exact .after (.pure false) (adds _)
      next impossible => cases impossible rfl
    intro explicit
    dsimp -zeta only [withExplicit]
    extract_lets withBinding
    have read : attributeExpression? (valueOf "t") = some function := bound
    rw [read]
    dsimp -zeta only
    rw [if_pos identifier]
    refine .after (yields_resolve _) ?_
    rw [resolved]
    dsimp -zeta only [withBinding]
    refine .after (.of_gives (reports_contextsOf _) asks.context) ?_
    refine .after yields_file (.after (.attempt (legible_location _ _ _) made) ?_)
    rw [← List.append_nil (asking.shown _ _)]
    exact .bind (adds_reportElementKey rfl rfl rfl asks.ordinal rfl rfl) .nothing

theorem adds_reportElement {element : Node} (asks : ElementAsks situation element binding asking) :
    Adds situation (Search.reportElement element) (asking.shown situation.extraction binding) := by
  obtain ⟨seen, yields, names⟩ := adds_reportTranslated asks
  refine .after yields_extraction ?_
  rw [if_pos asks.translated]
  exact ⟨seen, yields.tryCatch, names⟩

end Elements

section Agreement

variable {extraction : Extraction} {asking : Asking} {namespaceName text : String} {kind : Option Bool}

theorem exists_mem_names : ∃ name, name ∈ asking.names extraction namespaceName text kind := by
  cases held : asking.contexts with
  | nil => exact ⟨⟨namespaceName, text, kind⟩, by simp [Asking.names, held]⟩
  | cons context _ =>
    exact ⟨⟨namespaceName, text ++ extraction.contextSeparator ++ context, kind⟩, by simp [Asking.names, held]⟩

theorem namespaceName_of_mem_names {name : KeyName} (member : name ∈ asking.names extraction namespaceName text kind) :
    name.namespaceName = namespaceName := by
  rcases List.mem_append.mp member with context | base
  · obtain ⟨context, -, rfl⟩ := List.mem_map.mp context
    rfl
  · split at base
    · rw [List.mem_singleton.mp base]
    · cases base

theorem names_of_isPlain {byKey : Bool} (plain : asking.isPlain extraction byKey = true) :
    asking.names extraction namespaceName text (asking.kind extraction byKey) = [⟨namespaceName, text, none⟩] := by
  unfold Asking.isPlain at plain
  simp only [Bool.and_eq_true, Option.isNone_iff_eq_none, List.isEmpty_iff] at plain
  obtain ⟨⟨kind, contexts⟩, -⟩ := plain
  simp [Asking.names, contexts, kind]

/-- A call and an element take the same namespace for a key, unless the key names an empty one. -/
theorem namespaces_eq_iff {given : Option String} :
    (given.filter (· ≠ "")).getD (extraction.generalNamespace binding) =
        ((given <|> binding.bind Binding.defaultNamespace).filter (· ≠ "")).getD extraction.defaultNamespace ↔
      (given = some "" → extraction.generalNamespace binding = extraction.defaultNamespace) := by
  cases given with
  | none => simp [Extraction.generalNamespace]
  | some name =>
    by_cases empty : name = ""
    · simp [empty, Option.filter]
    · simp [empty, Option.filter]

theorem mem_called_iff_mem_shown_iff (unmarked : Text.endsWith extraction.ordinalEnding asking.key = false) :
    (∀ name, name ∈ asking.called extraction binding ↔ name ∈ asking.shown extraction binding) ↔
      asking.Agrees extraction binding := by
  have undropped : Text.dropEnd? extraction.ordinalEnding asking.key = none := by
    simpa [Text.endsWith] using unmarked
  unfold Asking.called Asking.calledAs Asking.shown Asking.Agrees
  rw [unmarked, undropped, Option.getD_none]
  extract_lets parts asked shown
  have sameNamespace : asked = shown ↔ _ := namespaces_eq_iff
  rw [← sameNamespace]
  cases blank : Text.isBlankText parts.2 with
  | true => simp
  | false =>
    simp only [Bool.false_eq_true, if_false, false_or]
    cases extraction.whole? binding parts.2 with
    | none =>
      refine ⟨fun same => ?_, by simp⟩
      have there : ∃ name, name ∈ asking.names extraction shown parts.2 (asking.kind extraction false) :=
        exists_mem_names
      obtain ⟨name, member⟩ := there
      cases (same name).mpr member
    | some whole =>
      simp only [Option.getD_some, Option.mem_some, exists_eq_left']
      refine ⟨fun same => ?_, ?_⟩
      · have there : ∃ name, name ∈ asking.names extraction asked whole (asking.kind extraction false) :=
          exists_mem_names
        obtain ⟨name, member⟩ := there
        have inShown := (same name).mp (List.mem_append_left _ member)
        have equal : asked = shown :=
          (namespaceName_of_mem_names member).symm.trans (namespaceName_of_mem_names inShown)
        refine ⟨equal, fun plain key referred => ?_⟩
        rw [if_pos plain] at same
        have inReferred := (same key.name).mp (List.mem_append_right _ (List.mem_map_of_mem referred))
        rw [names_of_isPlain plain, ← equal] at inReferred
        exact List.mem_singleton.mp inReferred
      · rintro ⟨equal, references⟩ name
        rw [equal, List.mem_append, or_iff_left_iff_imp]
        intro inReferred
        split at inReferred
        next plain =>
          obtain ⟨key, referred, rfl⟩ := List.mem_map.mp inReferred
          rw [names_of_isPlain plain, ← equal]
          exact List.mem_singleton.mpr (references plain key referred)
        next => cases inReferred

/-- A call adds keys of the names that it asks for and an element those that it asks for. For a key that asks for no
ordinal by its ending these names are the same just where the two agree. -/
theorem call_and_element_add {situation : Situation} {call element : Node}
    (calls : CallAsks situation call binding asking) (shows : ElementAsks situation element binding asking) :
    Adds situation (Search.reportCall call none none) (asking.called situation.extraction binding) ∧
      Adds situation (Search.reportElement element) (asking.shown situation.extraction binding) ∧
      (Text.endsWith situation.extraction.ordinalEnding asking.key = false →
        ((∀ name, name ∈ asking.called situation.extraction binding ↔
            name ∈ asking.shown situation.extraction binding) ↔ asking.Agrees situation.extraction binding)) :=
  ⟨adds_reportCall calls, adds_reportElement shows, mem_called_iff_mem_shown_iff⟩

end Agreement

section Examples

open FirstSightings

/-- The first expression of a script. -/
def expressionOf (code : String) : Node :=
  ((parse? .markup code).bind fun root => (root.parts.head?).bind fun statement => statement.parts.head?).getD default

def countedCall : Node := expressionOf "t('other:a', \x7bcount: 1, ordinal: true, context: 'x'\x7d);"

def countedElement : Node := expressionOf "<Trans t=\x7bt\x7d i18nKey='other:a' count=\x7b1\x7d ordinal context='x' />;"

def prefixing : Binding where
  namespaces := some (.one "common")
  keyPrefix := some "p"

/-- The search of a file in which the translation function puts a text in front of keys. -/
def behindPrefix : Situation where
  task := ⟨plainEnglish, "src/a.tsx"⟩
  scopes := { stack := [[("t", some prefixing)]] }
  constants := []

def countedKey : Asking where
  key := "other:a"
  hasCount := true
  ordinal := true
  contexts := ["x"]
  moreContexts := false

/-- A call whose second and last argument is an object has no default text, and this object as options. -/
theorem gives_defaultAndOptions {situation : Situation} {call options : Node} (few : call.callArguments.length = 2)
    (second : (call.callArguments[1]?).bind Node.unwrap = some options) (object : options.kind = .object) :
    Gives situation (Search.defaultAndOptions call.callArguments) (none, some options) := by
  have third : call.callArguments[2]? = none := List.getElem?_eq_none (Nat.le_of_eq few)
  unfold Search.defaultAndOptions
  rw [second, third]
  dsimp only
  rw [object]
  rfl

theorem countedCall_asks : CallAsks behindPrefix countedCall (some prefixing) countedKey := by
  have checked : (((countedCall.child? .function).bind Node.memberChain? = some "t" ∧
        behindPrefix.scopes.resolve "t" = some prefixing) ∧ countedCall.callArguments.length = 2 ∧
        1 ≤ countedCall.start.line) ∧
      (countedCall.callArguments.head?).any (fun first : Node =>
        Gives behindPrefix (Search.keysOfArgument first) (["other:a"], false)) = true ∧
      ((countedCall.callArguments[1]?).bind Node.unwrap).any (fun options : Node => options.kind = .object ∧
        (Gives behindPrefix (Search.namespaceOfOptions options) none ∧
          Gives behindPrefix (Search.givesDefaults options) false ∧
          (memberOf options "count").map Option.isSome = .ok true) ∧
        Gives behindPrefix (Search.optionValue options "ordinal") (some (.truth true)) ∧
        Gives behindPrefix (Search.optionValue options "returnObjects") none ∧
        Gives behindPrefix (Search.attempt (memberOf options "context") >>= Search.contextsOf) (["x"], false)) =
        true := by
    decide +kernel
  simp only [Option.any_eq_true, decide_eq_true_eq] at checked
  obtain ⟨⟨⟨chain, resolved⟩, few, line⟩, ⟨first, head, keyed⟩, options, second, object, ⟨unnamed, undefaulted, count⟩,
    ordinal, objects, context⟩ := checked
  obtain ⟨further, arguments⟩ := List.head?_eq_some_iff.mp head
  refine ⟨⟨"t", chain, resolved, rfl⟩, ⟨first, further, arguments, keyed⟩, ⟨some options, ?_, ?_⟩, line⟩
  · exact gives_defaultAndOptions few second object
  · exact ⟨unnamed, undefaulted, count, ⟨_, ordinal, rfl⟩, ⟨_, objects⟩, context⟩

theorem countedElement_asks : ElementAsks behindPrefix countedElement (some prefixing) countedKey := by
  have checked : (isTranslated behindPrefix.extraction.components countedElement = true ∧
        (attributeExpression? (attributeOf countedElement "t")).any (fun function => function.kind = .identifier ∧
          behindPrefix.scopes.resolve function.text = some prefixing) = true) ∧
      (Table.has "i18nKey" (attributeTable countedElement) = true ∧
        Gives behindPrefix (Search.keysOfAttribute (attributeOf countedElement "i18nKey") none) ["other:a"]) ∧
      ((attributeOf countedElement "ns").isNone ∧ (attributeOf countedElement "tOptions").isNone) ∧
      (countsBy countedElement = .ok true ∧ Table.has "ordinal" (attributeTable countedElement) = true ∧
        Gives behindPrefix (Search.contextsOf (attributeExpression? (attributeOf countedElement "context")))
          (["x"], false)) ∧
      contentText behindPrefix.extraction.keptElements countedElement = .ok "" ∧
      attributeText? (attributeOf countedElement "defaults") = .ok none ∧ 1 ≤ countedElement.start.line := by
    decide +kernel
  simp only [Option.any_eq_true, decide_eq_true_eq, Option.isNone_iff_eq_none] at checked
  obtain ⟨⟨translated, function⟩, key, ⟨unnamed, optionless⟩, ⟨count, ordinal, context⟩, content, defaults, line⟩ :=
    checked
  exact ⟨translated, function, key, unnamed, optionless, count, ordinal, context, ⟨_, content⟩, ⟨_, defaults⟩, line⟩

/-- An ordinal in a context is asked for by a call and by an element alike. -/
theorem counted_call_and_element_add :
    CallAsks behindPrefix countedCall (some prefixing) countedKey ∧
      ElementAsks behindPrefix countedElement (some prefixing) countedKey ∧
      (Adds behindPrefix (Search.reportCall countedCall none none) [⟨"other", "p.a_x", some true⟩] ∧
        Adds behindPrefix (Search.reportElement countedElement) [⟨"other", "p.a_x", some true⟩]) ∧
      countedKey.Agrees behindPrefix.extraction (some prefixing) := by
  have added := call_and_element_add countedCall_asks countedElement_asks
  have called : countedKey.called behindPrefix.extraction (some prefixing) = [⟨"other", "p.a_x", some true⟩] := by
    decide +kernel
  have shown : countedKey.shown behindPrefix.extraction (some prefixing) = [⟨"other", "p.a_x", some true⟩] := by
    decide +kernel
  have unmarked : Text.endsWith behindPrefix.extraction.ordinalEnding countedKey.key = false := by decide +kernel
  rw [called, shown] at added
  exact ⟨countedCall_asks, countedElement_asks, ⟨added.1, added.2.1⟩, (added.2.2 unmarked).mp fun _ => .rfl⟩

/-- A script in which the translation function puts a text in front of keys. -/
def prefixingCode (site : String) : String :=
  "const \x7b t \x7d = useTranslation('common', \x7b keyPrefix: 'p' \x7d); " ++ site

/-- A key that is left with a blank segment is skipped by a call and is added by an element, as it is without the text
of the binding. -/
theorem element_keeps_key_with_blank_segment :
    Table.names (keysIn (prefixingCode "t('a..b');")) = [] ∧
      Table.names (keysIn (prefixingCode "<Trans t=\x7bt\x7d i18nKey='a..b' />;")) = ["common:a..b"] := by
  refine ⟨?_, ?_⟩
  · decide +kernel
  · decide +kernel

end Examples

end Proofs.CallsAndElements
end Phrasebook
