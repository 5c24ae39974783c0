import Phrasebook.Proofs.CallReadings
import Phrasebook.Proofs.ElementReadings
import Phrasebook.Proofs.TextExpressions

/-! An element names its key in a text or in an expression. Two elements that are alike but for this see the same keys,
unless the key begins with the namespace that the element gives beside it: this is taken off a text only. The elements
are compared step by step, so that what is read in both the same way has to be said once. -/

namespace Phrasebook.Proofs.KeyAttributes

open Catalog CallReadings CallsAndElements ElementReadings KeyNames LiteralTexts Placeless PossibleTexts SearchFailures
  SearchSteps SiteReports Syntax TextExpressions

variable {situation : Situation}

section Steps

/-- In a situation two steps learn nothing of declarations, and the keys that they see are related. -/
def Relates (situation : Situation) (related : List Key → List Key → Prop) (one two : Search Unit) : Prop :=
  ∃ first second : Report Unit, first.Of one situation ∧ second.Of two situation ∧ related first.seen second.seen

namespace Relates

variable {α β γ : Type} {related : List Key → List Key → Prop}

theorem of_yields {one two : Search Unit} {first second : List Key} (yields : Yields situation one () first)
    (yieldsToo : Yields situation two () second) (here : related first second) : Relates situation related one two := by
  obtain ⟨report, does, -, rfl⟩ := yields
  obtain ⟨other, doesToo, -, rfl⟩ := yieldsToo
  exact ⟨report, other, does, doesToo, here⟩

theorem nothing (neither : related [] []) : Relates situation related (Pure.pure ()) (Pure.pure ()) :=
  of_yields (.pure ()) (.pure ()) neither

/-- Steps are compared behind others that see no keys by what these give. -/
theorem given {step : Search α} {other : Search β} {next : α → Search Unit} {nextToo : β → Search Unit} {value : α}
    {valueToo : β} (one : Yields situation step value []) (two : Yields situation other valueToo [])
    (here : Relates situation related (next value) (nextToo valueToo)) :
    Relates situation related (step >>= next) (other >>= nextToo) := by
  obtain ⟨first, does, ended, unseen⟩ := one
  obtain ⟨second, doesToo, endedToo, unseenToo⟩ := two
  obtain ⟨rest, restToo, doesRest, doesRestToo, held⟩ := here
  refine ⟨rest.behind first, restToo.behind second, ?_, ?_, ?_⟩
  · exact does.behind doesRest fun _ _ ran => run_bind_ok (ended ▸ ran)
  · exact doesToo.behind doesRestToo fun _ _ ran => run_bind_ok (endedToo ▸ ran)
  · rwa [Report.behind, Report.behind, unseen, unseenToo]

/-- Behind one step that sees no keys two steps are related where they are for all that it may give. -/
theorem behind {step : Search α} {next nextToo : α → Search Unit} {gives : α → Prop} (neither : related [] [])
    (read : Reports situation (fun _ => False) step gives)
    (each : ∀ value, gives value → Relates situation related (next value) (nextToo value)) :
    Relates situation related (step >>= next) (step >>= nextToo) := by
  obtain ⟨first, does, legible, unseen, held⟩ := read
  have empty : first.seen = [] := List.eq_nil_iff_forall_not_mem.mpr unseen
  cases ended : first.result with
  | error failure =>
    have halted : Legible (α := Unit) (.error failure) := .error (legible failure ended)
    have stops (next : α → Search Unit) :
        Report.Of ⟨.error failure, first.seen, first.told⟩ (step >>= next) situation :=
      ⟨fun keys journal => run_bind_error (ended ▸ does.runs keys journal), halted.inner, does.warns, does.usable⟩
    refine ⟨_, _, stops next, stops nextToo, ?_⟩
    rwa [empty]
  | ok value =>
    have yields : Yields situation step value [] := ⟨first, does, ended, empty⟩
    exact given yields yields (each value (held value ended))

/-- Behind results that are read alike two steps are related where they are for values that look alike. -/
theorem attempt {result other : Except Failure α} {view : α → γ} {next nextToo : α → Search Unit}
    (neither : related [] []) (legible : Legible result) (legibleToo : Legible other)
    (alike : result.map view = other.map view)
    (each : ∀ value valueToo, view value = view valueToo →
      Relates situation related (next value) (nextToo valueToo)) :
    Relates situation related (Search.attempt result >>= next) (Search.attempt other >>= nextToo) := by
  cases result with
  | error failure =>
    cases other with
    | error failureToo =>
      obtain rfl := Except.error.inj alike
      refine behind neither (.attempt legible) fun value impossible => ?_
      cases impossible
    | ok valueToo => cases alike
  | ok value =>
    cases other with
    | error failureToo => cases alike
    | ok valueToo =>
      exact given (.attempt legible rfl) (.attempt legibleToo rfl) (each value valueToo (Except.ok.inj alike))

/-- What holds of a step and itself carries over what the step reads first. -/
theorem carries (neither : related [] []) : Carries situation fun step => Relates situation related step step where
  behind read each := behind neither read each

end Relates

theorem yields_tryCatch {step : Search Unit} {handle : Failure → Search Unit} {report : Report Unit}
    (does : report.Of step situation) (handled : ∀ failure, Yields situation (handle failure) () []) :
    Yields situation (tryCatch step handle) () report.seen := by
  cases ended : report.result with
  | ok value => exact Yields.tryCatch ⟨report, does, ended, rfl⟩
  | error failure =>
    obtain ⟨second, doesToo, endedToo, unseen⟩ := handled failure
    refine ⟨second.behind report, ?_, endedToo, ?_⟩
    · exact does.behind doesToo fun _ _ ran => run_tryCatch_error (ended ▸ ran)
    · rw [Report.behind, unseen, List.append_nil]

end Steps

section Elements

/-- Two elements of one name stand at one place and have one content, and they are alike but for the places of their
attributes and for the attribute that names the key. -/
structure DifferInKey (first second : Node) : Prop where
  start : first.start = second.start
  name : (elementName? first).map Node.text = (elementName? second).map Node.text
  content : ∀ kept, contentText kept first = contentText kept second
  attributes : ∀ name ≠ "i18nKey", (Table.find? name (attributeTable first)).map (Option.map Node.placeless) =
    (Table.find? name (attributeTable second)).map (Option.map Node.placeless)

namespace DifferInKey

variable {first second : Node}

theorem attributeOf (differ : DifferInKey first second) (name : String) (other : name ≠ "i18nKey") :
    (attributeOf first name).map Node.placeless = (attributeOf second name).map Node.placeless := by
  have join (found : Option (Option Node)) :
      found.join.map Node.placeless = (found.map (Option.map Node.placeless)).join := by
    cases found <;> rfl
  unfold CallsAndElements.attributeOf
  rw [join, differ.attributes name other, join]

theorem has (differ : DifferInKey first second) (name : String) (other : name ≠ "i18nKey") :
    Table.has name (attributeTable first) = Table.has name (attributeTable second) := by
  have same := congrArg Option.isSome (differ.attributes name other)
  rwa [Option.isSome_map, Option.isSome_map] at same

theorem expressionOf (differ : DifferInKey first second) (name : String) (other : name ≠ "i18nKey") :
    (attributeExpression? (CallsAndElements.attributeOf first name)).map Node.placeless =
      (attributeExpression? (CallsAndElements.attributeOf second name)).map Node.placeless :=
  attributeExpression?_congr (differ.attributeOf name other)

/-- An object in an attribute is one in the other element as well. -/
theorem objectOf (differ : DifferInKey first second) (name : String) (other : name ≠ "i18nKey") :
    ((attributeExpression? (CallsAndElements.attributeOf first name)).filter
        fun object => object.kind = .object).map Node.placeless =
      ((attributeExpression? (CallsAndElements.attributeOf second name)).filter
        fun object => object.kind = .object).map Node.placeless := by
  have kept (value : Option Node) : (value.filter fun object => object.kind = .object).map Node.placeless =
      (value.map Node.placeless).filter fun object => object.kind = .object := by
    simp [Option.filter_map, Function.comp_def]
  rw [kept, kept, differ.expressionOf name other]

theorem optionsOf (differ : DifferInKey first second) :
    (optionsOf first).map Node.placeless = (optionsOf second).map Node.placeless :=
  differ.objectOf "tOptions" (by decide)

/-- Both elements give one namespace. -/
theorem namespaceOf (differ : DifferInKey first second) : namespaceOf first = namespaceOf second := by
  have among (name : Option String) : namespaceAmong (ElementReadings.optionsOf first) name =
      namespaceAmong (ElementReadings.optionsOf second) name := by
    obtain ⟨missing, missingToo⟩ | ⟨options, optionsToo, held, heldToo, same⟩ := none_or_some_of_alike differ.optionsOf
    · rw [missing, missingToo]
    · rw [held, heldToo]
      cases name with
      | some name => rfl
      | none =>
        simp only [namespaceAmong]
        rw [← Node.propertyLiteral?_placeless options, same, Node.propertyLiteral?_placeless]
  unfold ElementReadings.namespaceOf
  rw [attributeText?_congr (differ.attributeOf "ns" (by decide)), funext among]

theorem countsBy (differ : DifferInKey first second) : countsBy first = countsBy second := by
  unfold CallsAndElements.countsBy
  rw [differ.has "count" (by decide)]
  split
  · rfl
  · obtain ⟨missing, missingToo⟩ | ⟨values, valuesToo, held, heldToo, same⟩ :=
        none_or_some_of_alike (differ.objectOf "values" (by decide))
    · rw [missing, missingToo]
    · rw [held, heldToo]
      have sees (node : Node) : (node.property "count").map Option.isSome =
          ((node.property "count").map (Option.map Node.placeless)).map Option.isSome := by
        cases node.property "count" with
        | error failure => rfl
        | ok found => exact congrArg Except.ok (Option.isSome_map ..).symm
      exact (sees values).trans ((congrArg _ (property_congr same "count")).trans (sees valuesToo).symm)

theorem contextOf (differ : DifferInKey first second) :
    (contextOf first).map (Option.map Node.placeless) = (contextOf second).map (Option.map Node.placeless) := by
  unfold ElementReadings.contextOf
  rw [differ.has "context" (by decide)]
  split
  · exact congrArg Except.ok (differ.expressionOf "context" (by decide))
  · obtain ⟨missing, missingToo⟩ | ⟨options, optionsToo, held, heldToo, same⟩ := none_or_some_of_alike differ.optionsOf
    · rw [missing, missingToo]
    · rw [held, heldToo]
      exact property_congr same "context"

theorem bindingOf (differ : DifferInKey first second) : bindingOf first = bindingOf second := by
  unfold ElementReadings.bindingOf
  obtain ⟨missing, missingToo⟩ | ⟨function, functionToo, held, heldToo, same⟩ :=
      none_or_some_of_alike (differ.expressionOf "t" (by decide))
  · rw [missing, missingToo]
  · rw [held, heldToo]
    simp only
    rw [← Node.kind_placeless function, ← Node.text_placeless function, same, Node.kind_placeless, Node.text_placeless]

/-- Both elements report keys of the same names in the same way. -/
theorem reportKeys (differ : DifferInKey first second) (said : Said) {context : Option Node}
    (alike : context.map Node.placeless = said.context.map Node.placeless) :
    reportKeys second { said with context } = reportKeys first said := by
  funext keys
  unfold ElementReadings.reportKeys explicitOf
  rw [differ.bindingOf, givesDefaults_congr differ.optionsOf, contextsOf_congr alike, differ.start,
    differ.has "ordinal" (by decide)]
  split
  · refine bind_congr fun explicit => bind_congr fun binding => bind_congr fun contexts => ?_
    refine bind_congr fun file => bind_congr fun location => ?_
    extract_lets setting settingToo
    have same : Search.reportElementKey { setting with options := ElementReadings.optionsOf first } =
        Search.reportElementKey setting := reportElementKey_congr differ.optionsOf
    exact congrArg keys.forM same.symm
  · rfl

end DifferInKey

variable {related : List Key → List Key → Prop} {first second : Node}

/-- Where an element names keys at all, the reports of the keys are related under a setting that it gives. -/
theorem relates_reportKeys (neither : related [] []) {element : Node} {said : Said} {keys keysToo : List String}
    (same : keys.isEmpty = keysToo.isEmpty)
    (reported : ∀ setting : Search.ElementSetting, setting.namespaceName = said.namespaceName →
      (∀ options ∈ setting.options, IsOptions element options) →
      Relates situation related (keys.forM (Search.reportElementKey setting))
        (keysToo.forM (Search.reportElementKey setting))) :
    Relates situation related (reportKeys element said keys) (reportKeys element said keysToo) := by
  unfold reportKeys
  rw [same]
  split
  · refine .behind neither (reports_explicitOf _) fun explicit _ => ?_
    refine .behind neither reports_bindingOf fun binding _ => ?_
    refine .behind neither (reports_contextsOf _) ?_
    rintro ⟨contexts, moreContexts⟩ -
    refine .behind neither reports_file fun file _ => ?_
    refine .behind neither (.attempt (legible_location _ _ _)) fun location _ => ?_
    exact reported _ rfl isOptions_of_mem
  · exact .nothing neither

/-- Elements that differ in the key see related keys where the reports of the keys that they name are related, under the
namespace that both give. -/
theorem relates_reportTranslated (neither : related [] []) (differ : DifferInKey first second)
    (keyed : Table.has "i18nKey" (attributeTable first) = true)
    (keyedToo : Table.has "i18nKey" (attributeTable second) = true)
    (names : ∀ namespaceName, namespaceOf first = .ok namespaceName → ∃ named namedToo,
      Yields situation (Search.keysOfAttribute (attributeOf first "i18nKey") namespaceName) named [] ∧
      Yields situation (Search.keysOfAttribute (attributeOf second "i18nKey") namespaceName) namedToo [] ∧
      let keys := named.filter fun key => !Text.isBlankText key
      let keysToo := namedToo.filter fun key => !Text.isBlankText key
      (keys.isEmpty = keysToo.isEmpty ∨ keys = [] ∧ ∀ seen, related [] seen) ∧
      ∀ setting : Search.ElementSetting, setting.namespaceName = namespaceName →
        (∀ options ∈ setting.options, IsOptions first options) →
        Relates situation related (keys.forM (Search.reportElementKey setting))
          (keysToo.forM (Search.reportElementKey setting))) :
    Relates situation related (Search.reportTranslated first) (Search.reportTranslated second) := by
  rw [reportTranslated_eq, reportTranslated_eq]
  refine .behind neither reports_extraction fun extraction _ => ?_
  rw [← differ.namespaceOf]
  refine .behind neither (.attempt (legible_namespaceOf _)) fun namespaceName own => ?_
  obtain ⟨named, namedToo, gives, givesToo, fewer, reported⟩ := names namespaceName own
  rw [← differ.countsBy]
  refine .behind neither (.attempt (legible_countsBy _)) fun hasCount _ => ?_
  refine .attempt neither (legible_contextOf _) (legible_contextOf _) differ.contextOf fun context contextToo same => ?_
  rw [differ.content]
  refine .behind neither (.attempt (legible_contentText _ _)) fun content _ => ?_
  rw [← attributeText?_congr (differ.attributeOf "defaults" (by decide))]
  refine .behind neither (.attempt (legible_attributeText? _)) fun defaults _ => ?_
  unfold namesOf
  rw [if_pos keyed, if_pos keyedToo]
  refine .given gives givesToo ?_
  rw [differ.reportKeys ⟨namespaceName, hasCount, context, content, defaults⟩ same.symm]
  rcases fewer with sameNumber | ⟨none, any⟩
  · exact relates_reportKeys neither sameNumber reported
  · -- the first element reports nothing, and the second one what it would report by itself
    rw [none]
    let said : Said := ⟨namespaceName, hasCount, context, content, defaults⟩
    let keysToo := namedToo.filter fun key => !Text.isBlankText key
    have alone :
        Relates situation (fun _ _ => True) (reportKeys first said keysToo) (reportKeys first said keysToo) := by
      refine relates_reportKeys trivial rfl fun setting own among => ?_
      obtain ⟨-, report, -, does, -⟩ := reported setting own among
      exact ⟨report, report, does, does, trivial⟩
    obtain ⟨-, report, -, does, -⟩ := alone
    have silent : Yields situation (reportKeys first said []) () [] := .pure ()
    obtain ⟨early, doesEarly, -, unseen⟩ := silent
    refine ⟨early, report, doesEarly, does, ?_⟩
    rw [unseen]
    exact any _

theorem relates_reportElement (neither : related [] []) (differ : DifferInKey first second)
    (relates : Relates situation related (Search.reportTranslated first) (Search.reportTranslated second)) :
    ∃ seen seenToo, Yields situation (Search.reportElement first) () seen ∧
      Yields situation (Search.reportElement second) () seenToo ∧ related seen seenToo := by
  have sameName : isTranslated situation.extraction.components second =
      isTranslated situation.extraction.components first := by
    unfold isTranslated
    rw [differ.name]
  unfold Search.reportElement
  by_cases translated : isTranslated situation.extraction.components first = true
  · obtain ⟨report, reportToo, does, doesToo, held⟩ := relates
    refine ⟨report.seen, reportToo.seen, yields_extraction.after ?_, yields_extraction.after ?_, held⟩
    · rw [if_pos translated]
      exact yields_tryCatch does fun failure => yields_file.after (yields_warn _)
    · rw [sameName, if_pos translated]
      exact yields_tryCatch doesToo fun failure => yields_file.after (yields_warn _)
  · refine ⟨[], [], yields_extraction.after ?_, yields_extraction.after ?_, neither⟩
    · rw [if_neg translated]
      exact .pure ()
    · rw [sameName, if_neg translated]
      exact .pure ()

end Elements

section Spellings

variable {literal expression value braces : Node} {key : String} {namespaceName : Option String}

/-- Two elements that differ in how they name one key: in a text, and in an expression that is a text. Nothing in the
key is escaped. -/
structure Spellings (literal expression : Node) (key : String) : Prop extends DifferInKey literal expression where
  inQuotes : ∃ value, Table.find? "i18nKey" (attributeTable literal) = some (some value) ∧ quotes key value = true
  inBraces : ∃ braces value, Table.find? "i18nKey" (attributeTable expression) = some (some braces) ∧
    braces.kind = .jsxExpression ∧ (braces.parts.head?).bind Node.unwrap = some value ∧ quotes key value = true
  unescaped : key.toList.all isUnescaped = true

/-- A key as a text names it beside a namespace: without this namespace in front of it. -/
def unrepeated (extraction : Extraction) (namespaceName : Option String) (key : String) : String :=
  match namespaceName.filter (· ≠ ""), extraction.namespaceSeparator.mark? with
  | some name, some mark => (Text.dropStart? (name ++ mark) key).getD key
  | _, _ => key

theorem yields_keysOfLiteral (quoted : quotes key value = true) :
    Yields situation (Search.keysOfAttribute (some value) namespaceName)
      [unrepeated situation.extraction namespaceName key] [] := by
  simp only [quotes, Bool.and_eq_true, decide_eq_true_eq] at quoted
  obtain ⟨kind, rfl⟩ := quoted
  simp only [Search.keysOfAttribute, kind, if_true]
  refine yields_extraction.after ?_
  unfold unrepeated
  cases namespaceName.filter (· ≠ "") <;> cases situation.extraction.namespaceSeparator.mark? <;> exact .pure _

theorem yields_keysOfExpression (unplugged : situation.task.settings.plugins = []) (kind : braces.kind = .jsxExpression)
    (inside : (braces.parts.head?).bind Node.unwrap = some value) (quoted : quotes key value = true)
    (unescaped : key.toList.all isUnescaped = true) :
    Yields situation (Search.keysOfAttribute (some braces) namespaceName) (onlyText false (some key)) [] := by
  have known : possibleTexts situation.constants false value = .ok (onlyText false (some key)) := by
    simp only [quotes, Bool.and_eq_true, decide_eq_true_eq] at quoted
    obtain ⟨literal, rfl⟩ := quoted
    rw [possibleTexts_of_literal literal, stringValue?_of_spells literal (spells_of_plain unescaped)]
    rfl
  have expression : attributeExpression? (some braces) = some value := by
    simp [attributeExpression?, kind, inside]
  simp only [Search.keysOfAttribute, kind, reduceCtorEq, if_false, expression]
  exact yields_keyTexts unplugged known

/-- An element gives a namespace beside its keys, and one of these begins with it. -/
def Repeats (extraction : Extraction) (element : Node) (key : String) : Prop :=
  ∃ name mark rest, namespaceOf element = .ok (some name) ∧ name ≠ "" ∧
    extraction.namespaceSeparator.mark? = some mark ∧ key = name ++ mark ++ rest

/-- The first key of a sighting has the text of the sighting, and behind it what names the first context. -/
theorem first_name (extraction : Extraction) (sighting : Sighting) :
    ∃ name others, (sighting.keys extraction).map Key.name = name :: others ∧
      name.text = sighting.key ++ (sighting.contexts.head?.map (extraction.contextSeparator ++ ·)).getD "" := by
  unfold Sighting.keys
  cases held : sighting.contexts with
  | nil =>
    have needed : sighting.needsBase extraction.generateBasePluralForms = true := by simp [Sighting.needsBase, held]
    rw [if_pos needed]
    exact ⟨_, _, rfl, by simp [Key.name, Sighting.base, Sighting.keyFor]⟩
  | cons context contexts =>
    exact ⟨_, _, rfl, by simp [Key.name, Sighting.variant, Sighting.keyFor, String.append_assoc]⟩

/-- The keys that are seen where an element gives a namespace and names one key: none, or those of a sighting of it. -/
def SeenFor (extraction : Extraction) (contexts : List String) (key : String) (seen : List Key) : Prop :=
  seen = [] ∨ ∃ sighting : Sighting, sighting.key = key ∧ sighting.contexts = contexts ∧ seen = sighting.keys extraction

theorem SeenFor.eq_nil {extraction : Extraction} {contexts : List String} {one two : String} {first second : List Key}
    (seen : SeenFor extraction contexts one first) (seenToo : SeenFor extraction contexts two second)
    (different : one ≠ two) (same : first.map Key.name = second.map Key.name) : first = [] ∧ second = [] := by
  rcases seen with rfl | ⟨sighting, rfl, rfl, rfl⟩
  · exact ⟨rfl, List.map_eq_nil_iff.mp same.symm⟩
  · obtain ⟨name, others, names, text⟩ := first_name extraction sighting
    rcases seenToo with rfl | ⟨sightingToo, rfl, alike, rfl⟩
    · rw [names] at same
      cases same
    · obtain ⟨nameToo, othersToo, namesToo, textToo⟩ := first_name extraction sightingToo
      rw [names, namesToo] at same
      rw [(List.cons.inj same).1, textToo, alike] at text
      exact absurd (String.append_left_inj _ |>.mp text).symm different

/-- The keys that are named by one text, none where it is blank. -/
abbrev namedBy (text : String) : List String := [text].filter fun key => !Text.isBlankText key

theorem named_expression (key : String) :
    (onlyText false (some key)).filter (fun key => !Text.isBlankText key) = namedBy key := by
  by_cases empty : key = ""
  · subst empty
    decide +kernel
  · simp [onlyText, empty]

variable {setting : Search.ElementSetting}

theorem reports_keys (among : ∀ options ∈ setting.options, IsOptions literal options) (keys : List String) :
    Reports situation (fun _ => True) (keys.forM (Search.reportElementKey setting)) fun _ => True := by
  refine .forM fun key _ => opens_reportElementKey .reports among (.done _) fun sighting sighted => ?_
  exact ((yields_report sighted.filled).reports fun _ _ => trivial).mono fun _ _ => trivial

/-- Beside a namespace a key is reported as it is named. -/
theorem sees_key (among : ∀ options ∈ setting.options, IsOptions literal options)
    (given : setting.namespaceName.isSome = true) (key : String) :
    Relates situation (fun seen _ => SeenFor situation.extraction setting.contexts key seen)
      ((namedBy key).forM (Search.reportElementKey setting))
      ((namedBy key).forM (Search.reportElementKey setting)) := by
  have neither : SeenFor situation.extraction setting.contexts key [] := .inl rfl
  cases blank : Text.isBlankText key with
  | true =>
    rw [namedBy, List.filter_cons_of_neg (by simp [blank])]
    exact .nothing neither
  | false =>
    have single : [key].forM (Search.reportElementKey setting) = Search.reportElementKey setting key := bind_pure_unit
    rw [namedBy, List.filter_cons_of_pos (by simp [blank]), List.filter_nil, single]
    refine opens_reportElementKey (Relates.carries neither) among (.nothing neither) fun sighting sighted => ?_
    have seen : SeenFor situation.extraction setting.contexts key (sighting.keys situation.extraction) :=
      .inr ⟨sighting, sighted.verbatim given, sighted.contexts, rfl⟩
    exact .of_yields (yields_report sighted.filled) (yields_report sighted.filled) seen

theorem unrepeated_of_not_repeats {extraction : Extraction} (own : namespaceOf literal = .ok namespaceName)
    (unrepeating : ¬ Repeats extraction literal key) : unrepeated extraction namespaceName key = key := by
  unfold unrepeated
  split
  next name mark given marked =>
    obtain ⟨rfl, filled⟩ := Option.filter_eq_some_iff.mp given
    cases dropped : Text.dropStart? (name ++ mark) key with
    | none => rfl
    | some rest =>
      obtain ⟨behind, found, rfl⟩ := Option.map_eq_some_iff.mp dropped
      have whole : key = name ++ mark ++ String.ofList behind := by
        simp [← String.toList_inj, Text.eq_append_of_after? found]
      exact absurd ⟨name, mark, _, own, by simpa using filled, marked, whole⟩ unrepeating
  next => rfl

/-- Where the keys that the two spellings name are reported relatedly, so are the elements. -/
theorem relates_of_spellings {related : List Key → List Key → Prop} (neither : related [] [])
    (unplugged : situation.task.settings.plugins = []) (spelled : Spellings literal expression key)
    (reported : ∀ namespaceName, namespaceOf literal = .ok namespaceName →
      let keys := namedBy (unrepeated situation.extraction namespaceName key)
      (keys.isEmpty = (namedBy key).isEmpty ∨ keys = [] ∧ ∀ seen, related [] seen) ∧
      ∀ setting : Search.ElementSetting, setting.namespaceName = namespaceName →
        (∀ options ∈ setting.options, IsOptions literal options) →
        Relates situation related (keys.forM (Search.reportElementKey setting))
          ((namedBy key).forM (Search.reportElementKey setting))) :
    Relates situation related (Search.reportTranslated literal) (Search.reportTranslated expression) := by
  obtain ⟨value, there, quoted⟩ := spelled.inQuotes
  obtain ⟨braces, valueToo, thereToo, kind, inside, quotedToo⟩ := spelled.inBraces
  have has : Table.has "i18nKey" (attributeTable literal) = true := by simp [Table.has, there]
  have hasToo : Table.has "i18nKey" (attributeTable expression) = true := by simp [Table.has, thereToo]
  have valued : attributeOf literal "i18nKey" = some value := congrArg Option.join there
  have valuedToo : attributeOf expression "i18nKey" = some braces := congrArg Option.join thereToo
  refine relates_reportTranslated neither spelled.toDifferInKey has hasToo fun namespaceName own => ?_
  refine ⟨_, _, valued ▸ yields_keysOfLiteral quoted,
    valuedToo ▸ yields_keysOfExpression unplugged kind inside quotedToo spelled.unescaped, ?_⟩
  rw [named_expression]
  exact reported namespaceName own

theorem relates_of_not_repeats (unplugged : situation.task.settings.plugins = [])
    (spelled : Spellings literal expression key) (unrepeating : ¬ Repeats situation.extraction literal key) :
    Relates situation Eq (Search.reportTranslated literal) (Search.reportTranslated expression) := by
  refine relates_of_spellings rfl unplugged spelled fun namespaceName own => ?_
  rw [unrepeated_of_not_repeats own unrepeating]
  refine ⟨.inl rfl, fun setting _ among => ?_⟩
  have reports : Reports situation _ ((namedBy key).forM (Search.reportElementKey setting)) _ := reports_keys among _
  obtain ⟨report, does, -⟩ := reports
  exact ⟨report, report, does, does, rfl⟩

theorem relates_of_repeats (unplugged : situation.task.settings.plugins = [])
    (spelled : Spellings literal expression key) (repeats : Repeats situation.extraction literal key) :
    Relates situation (fun first second => first.map Key.name = second.map Key.name → first = [] ∧ second = [])
      (Search.reportTranslated literal) (Search.reportTranslated expression) := by
  obtain ⟨name, mark, rest, own, filled, marked, rfl⟩ := repeats
  have different : rest ≠ name ++ mark ++ rest := by
    intro same
    have lengths := congrArg (List.length ∘ String.toList) same
    have first : 0 < name.toList.length := by simpa [List.length_pos_iff] using filled
    simp only [Function.comp_apply, String.toList_append, List.length_append] at lengths
    omega
  refine relates_of_spellings (fun _ => ⟨rfl, rfl⟩) unplugged spelled fun namespaceName given => ?_
  obtain rfl := Except.ok.inj (given.symm.trans own)
  have stripped : unrepeated situation.extraction (some name) (name ++ mark ++ rest) = rest := by
    simp [unrepeated, Option.filter, filled, marked, Segments.dropStart?_append]
  rw [stripped]
  refine ⟨?_, fun setting beside among => ?_⟩
  · -- nothing may be left of a key that is not blank with the namespace in front of it
    cases blank : Text.isBlankText rest with
    | true => exact .inr ⟨by simp [blank], fun seen same => ⟨rfl, List.map_eq_nil_iff.mp same.symm⟩⟩
    | false =>
      have blankToo : Text.isBlankText (name ++ mark ++ rest) = false := filled_append.mpr (.inr blank)
      exact .inl (by simp [blank, blankToo])
  · have given : setting.namespaceName.isSome = true := by
      rw [beside]
      rfl
    have one : Relates situation _ _ _ := sees_key among given rest
    have two : Relates situation _ _ _ := sees_key among given (name ++ mark ++ rest)
    obtain ⟨report, -, does, -, seen⟩ := one
    obtain ⟨reportToo, -, doesToo, -, seenToo⟩ := two
    exact ⟨report, reportToo, does, doesToo, seen.eq_nil seenToo different⟩

/-- Two elements that name one key, in a text and in an expression, see the same keys, unless they give a namespace that
the key repeats: then they see keys of the same names only where neither sees any. -/
theorem keys_of_spellings (unplugged : situation.task.settings.plugins = [])
    (spelled : Spellings literal expression key) :
    ∃ first second, Yields situation (Search.reportElement literal) () first ∧
      Yields situation (Search.reportElement expression) () second ∧
      (¬ Repeats situation.extraction literal key → first = second) ∧
      (first.map Key.name = second.map Key.name ↔
        ¬ Repeats situation.extraction literal key ∨ first = [] ∧ second = []) := by
  by_cases repeats : Repeats situation.extraction literal key
  · obtain ⟨first, second, yields, yieldsToo, held⟩ := relates_reportElement (fun _ => ⟨rfl, rfl⟩)
      spelled.toDifferInKey (relates_of_repeats unplugged spelled repeats)
    refine ⟨first, second, yields, yieldsToo, absurd repeats, fun same => .inr (held same), ?_⟩
    rintro (unrepeating | ⟨rfl, rfl⟩)
    · exact absurd repeats unrepeating
    · rfl
  · obtain ⟨first, second, yields, yieldsToo, rfl⟩ := relates_reportElement rfl spelled.toDifferInKey
      (relates_of_not_repeats unplugged spelled repeats)
    exact ⟨first, first, yields, yieldsToo, fun _ => rfl, fun _ => .inl repeats, fun _ => rfl⟩

end Spellings

section Examples

open FirstSightings

/-- Attributes look alike where the tables of them name the same in the same order, with values that do. -/
theorem attributes_of_looksLike {first second : List (String × Option Node)} (long : first.length = second.length)
    (each : ∀ pair ∈ first.zip second, pair.1.1 = pair.2.1 ∧ (pair.1.1 = "i18nKey" ∨
      Node.looksLike.allLookLike pair.1.2.toList pair.2.2.toList = true)) :
    ∀ name ≠ "i18nKey", (Table.find? name first).map (Option.map Node.placeless) =
      (Table.find? name second).map (Option.map Node.placeless) := by
  intro name other
  have pairs := List.forall₂_iff_zip.mpr ⟨long, fun {entry entryToo} member => each (entry, entryToo) member⟩
  clear each long
  induction pairs with
  | nil => rfl
  | @cons entry entryToo rest restToo here _ ih =>
    obtain ⟨called, value⟩ := entry
    obtain ⟨calledToo, valueToo⟩ := entryToo
    obtain ⟨same, looks⟩ := here
    dsimp only at same looks
    subst same
    rcases eq_or_ne called name with rfl | different
    · have same := Node.placelessAll_eq_of_allLookLike (looks.resolve_left other)
      rw [Node.placelessAll_eq, Node.placelessAll_eq] at same
      simp only [Table.find?, if_true]
      cases value <;> cases valueToo <;> simp_all
    · simpa [Table.find?, different] using ih

def spelledInQuotes : Node := expressionOf "<Trans ns='other' i18nKey='common:a' count=\x7b1\x7d />;"

def spelledInBraces : Node := expressionOf "<Trans ns='other' i18nKey=\x7b'common:a'\x7d count=\x7b1\x7d />;"

theorem spelledInQuotes_and_inBraces : Spellings spelledInQuotes spelledInBraces "common:a" := by
  have checked : spelledInQuotes.start = spelledInBraces.start ∧
      (elementName? spelledInQuotes).map Node.text = (elementName? spelledInBraces).map Node.text ∧
      spelledInQuotes.kind = .jsxSelfClosingElement ∧ spelledInBraces.kind = .jsxSelfClosingElement ∧
      (attributeTable spelledInQuotes).length = (attributeTable spelledInBraces).length ∧
      (∀ pair ∈ (attributeTable spelledInQuotes).zip (attributeTable spelledInBraces), pair.1.1 = pair.2.1 ∧
        (pair.1.1 = "i18nKey" ∨ Node.looksLike.allLookLike pair.1.2.toList pair.2.2.toList = true)) ∧
      (Table.find? "i18nKey" (attributeTable spelledInQuotes)).any (·.any (quotes "common:a")) = true ∧
      (Table.find? "i18nKey" (attributeTable spelledInBraces)).any (·.any fun braces => braces.kind = .jsxExpression ∧
        ((braces.parts.head?).bind Node.unwrap).any (quotes "common:a") = true) = true ∧
      "common:a".toList.all isUnescaped = true := by
    decide +kernel
  simp only [Option.any_eq_true, decide_eq_true_eq] at checked
  obtain ⟨start, name, closed, closedToo, long, each, ⟨_, there, value, rfl, quoted⟩,
    ⟨_, thereToo, braces, rfl, kind, valueToo, inside, quotedToo⟩, unescaped⟩ := checked
  have content (kept : List String) : contentText kept spelledInQuotes = contentText kept spelledInBraces := by
    rw [contentText, if_neg (by simp [closed]), contentText, if_neg (by simp [closedToo])]
  exact ⟨⟨start, name, content, attributes_of_looksLike long each⟩, ⟨value, there, quoted⟩,
    ⟨braces, valueToo, thereToo, kind, inside, quotedToo⟩, unescaped⟩

theorem not_repeats_spelledInQuotes : ¬ Repeats behindPrefix.extraction spelledInQuotes "common:a" := by
  rintro ⟨name, mark, rest, own, -, -, whole⟩
  have given : namespaceOf spelledInQuotes = .ok (some "other") := by decide +kernel
  obtain rfl := Option.some.inj (Except.ok.inj (given.symm.trans own))
  have starts := congrArg (List.head? ∘ String.toList) whole
  simp at starts

/-- A key of another namespace than the one beside it is named alike by both spellings. -/
theorem key_of_other_namespace_in_both_spellings :
    behindPrefix.task.settings.plugins = [] ∧ Spellings spelledInQuotes spelledInBraces "common:a" ∧
      ∃ seen, Yields behindPrefix (Search.reportElement spelledInQuotes) () seen ∧
        Yields behindPrefix (Search.reportElement spelledInBraces) () seen := by
  have unplugged : behindPrefix.task.settings.plugins = [] := rfl
  obtain ⟨first, second, yields, yieldsToo, same, -⟩ := keys_of_spellings unplugged spelledInQuotes_and_inBraces
  obtain rfl := same not_repeats_spelledInQuotes
  exact ⟨unplugged, spelledInQuotes_and_inBraces, first, yields, yieldsToo⟩

/-- A namespace that is given beside the key and repeated in it is taken off a text, and kept in an expression. -/
theorem expression_keeps_repeated_namespace :
    Table.names (keysIn "<Trans ns='common' i18nKey='common:save' />;") = ["common:save"] ∧
      Table.names (keysIn "<Trans ns='common' i18nKey=\x7b'common:save'\x7d />;") = ["common:common:save"] := by
  refine ⟨?_, ?_⟩
  · decide +kernel
  · decide +kernel

end Examples

end Phrasebook.Proofs.KeyAttributes
