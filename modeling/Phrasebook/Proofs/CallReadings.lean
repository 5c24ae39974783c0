import Phrasebook.Proofs.CallsAndElements

/-! What a call of a translation function reads before it reports keys: the keys that it names, its default text and its
options, and for each key the namespace and the contexts. All that is read without a key being seen, so a property of
steps that carries over what is read first holds of the call where it holds of the reports that remain. -/

namespace Phrasebook

namespace Extraction

variable (extraction : Extraction)

/-- Whether a key that a call names asks for an ordinal by its ending. -/
def endsOrdinal (key : String) : Bool := !Text.isBlankText key && Text.endsWith extraction.ordinalEnding key

/-- A key of a call without the ending by which it asks for an ordinal. -/
def bare (key : String) : String := (Text.dropEnd? extraction.ordinalEnding key).getD key

/-- The keys that a call adds of those that it names: one that is left blank is passed over, and one to be skipped. -/
def added (skips : Option (String → Bool)) (named : List String) : List String :=
  named.filter fun key =>
    !Text.isBlankText key && !Text.isBlankText (extraction.bare key) &&
      !skips.any fun skips => skipsKey extraction skips (extraction.bare key)

end Extraction

namespace Proofs.CallReadings

open Catalog CallsAndElements SearchFailures SearchSteps SiteReports Syntax

variable {situation : Situation} {holds : Search Unit → Prop}

section Values

variable {α β : Type}

theorem gives_of_bind {step : Search α} {next : α → Search β} {value : β}
    (gives : Gives situation (step >>= next) value) : ∃ read, Gives situation step read := by
  cases ran : outcome step situation.task situation.start with
  | mk result later =>
    cases result with
    | error failure =>
      have failed : outcome (step >>= next) situation.task situation.start = _ := run_bind_error ran
      cases (congrArg Prod.fst failed).symm.trans gives
    | ok read => exact ⟨read, congrArg Prod.fst ran⟩

theorem gives_attempt {result : Except Failure α} {next : α → Search β} {read : α} {value : β}
    (held : result = .ok read) (gives : Gives situation (next read) value) :
    Gives situation (Search.attempt result >>= next) value := by
  subst held
  have ran : outcome (Search.attempt (.ok read) >>= next) situation.task situation.start = _ := run_bind_ok rfl
  exact (congrArg Prod.fst ran).trans gives

theorem gives_unique {step : Search α} {first second : α} (one : Gives situation step first)
    (two : Gives situation step second) : first = second := Except.ok.inj (one.symm.trans two)

end Values

section Keys

/-- The request for plurals of a key of a call whose options have a count or not. -/
inductive AsksPlural (situation : Situation) (call : Search.CallSetting) (hasCount : Bool) : Option PluralRequest → Prop
  | plain (unwanted : ((hasCount || call.ordinalByKey) && !situation.extraction.disablePlurals) = false) :
      AsksPlural situation call hasCount none
  | counted {value : Option Literal} (request : PluralRequest)
      (wanted : ((hasCount || call.ordinalByKey) && !situation.extraction.disablePlurals) = true)
      (read : Gives situation (Search.optionValue call.options "ordinal") value)
      (ordinal : request.ordinal = (value == some (.truth true) || call.ordinalByKey)) :
      AsksPlural situation call hasCount (some request)

/-- How a call takes one of its keys: the namespace, what is left of the key, and this behind the text of the binding. -/
structure Takes (situation : Situation) (call : Search.CallSetting) (key namespaceName inner whole : String) : Prop where
  cut : ∃ given, Gives situation (Search.namespaceOfOptions call.options) given ∧
    situation.extraction.cut? call.binding given key = some (namespaceName, inner)
  whole : situation.extraction.whole? call.binding inner = some whole

/-- What a call reports for one of its keys: the key as it is taken, the contexts among the options, and a request for
plurals where a count or the ending of a key asks for them. -/
structure Sights (situation : Situation) (call : Search.CallSetting) (key : String) (sighting : Sighting) : Prop where
  taken : ∃ inner, Takes situation call key sighting.namespaceName inner sighting.key
  contexts : Gives situation (Search.attempt (memberOf call.options "context") >>= Search.contextsOf)
    (sighting.contexts, sighting.moreContexts)
  plural : ∃ hasCount, (memberOf call.options "count").map Option.isSome = .ok hasCount ∧
    AsksPlural situation call hasCount sighting.plural

theorem filled_cut? {extraction : Extraction} {binding : Option Binding} {given : Option String} {key : String}
    {parts : String × String} (filled : Text.isBlankText key = false)
    (cut : extraction.cut? binding given key = some parts) : Text.isBlankText parts.2 = false := by
  unfold Extraction.cut? at cut
  split at cut
  · obtain rfl := Option.some.inj cut
    exact filled
  · extract_lets inner at cut
    split at cut
    · cases cut
    next left =>
      obtain rfl := Option.some.inj cut
      exact Bool.eq_false_iff.mpr left

theorem Sights.filled {call : Search.CallSetting} {key : String} {sighting : Sighting}
    (sights : Sights situation call key sighting) (filled : Text.isBlankText key = false) :
    Text.isBlankText sighting.key = false := by
  obtain ⟨inner, ⟨given, -, cut⟩, whole⟩ := sights.taken
  exact filled_whole? (filled_cut? filled cut) whole

variable {site : Node} {call : Search.CallSetting} {optionDefault : Option String} {hasDefaultOptions isLast : Bool}
  {key : String}

theorem reports_cut? {kind : Key → Prop} {binding : Option Binding} (filled : Text.isBlankText key = false)
    (options : Option Node) :
    Reports situation kind (Search.splitNamespace key options binding) fun found =>
      ∃ given, Gives situation (Search.namespaceOfOptions options) given ∧
        situation.extraction.cut? binding given key = found := by
  refine (reports_splitNamespace filled options binding).given.mono fun found ⟨_, gives⟩ => ?_
  obtain ⟨given, named⟩ : ∃ given, Gives situation (Search.namespaceOfOptions options) given := gives_of_bind gives
  exact ⟨given, named, gives_unique (yields_splitNamespace filled named).gives gives⟩

/-- A property that carries over what is read first holds of the report of a key where it holds of a step that does
nothing, if nothing is left of the key, and of each sighting followed by what a plain key and the default refer to. -/
theorem opens_reportCallKey (carries : Carries situation holds) (filled : Text.isBlankText key = false)
    (among : ∀ options ∈ call.options, IsOptions site options)
    (nothing : ∀ given, Gives situation (Search.namespaceOfOptions call.options) given →
      (situation.extraction.cut? call.binding given key).bind (situation.extraction.whole? call.binding ·.2) = none →
      holds (pure ()))
    (sighted : ∀ sighting, Sights situation call key sighting → holds (do
      Search.report sighting
      if sighting.isPlain then
        Search.reportReferences sighting.key
        (optionDefault <|> call.callDefault).forM Search.reportReferences)) :
    holds (Search.reportCallKey call optionDefault hasDefaultOptions isLast key) := by
  refine carries.behind reports_extraction fun extraction same => ?_
  subst same
  extract_lets options default explicit
  refine carries.behind (reports_cut? filled options) ?_
  rintro found ⟨given, named, cut⟩
  split
  next =>
    refine nothing given named ?_
    rw [cut, Option.bind_none]
  next namespaceName inner =>
  refine carries.yields (yields_whole? inner) fun found whole => ?_
  split
  next =>
    refine nothing given named ?_
    rw [cut, Option.bind_some, ← whole]
  next wholeKey =>
  extract_lets unstated withContext
  suffices here : ∀ contextNode hasCount, memberOf options "context" = .ok contextNode →
      (memberOf options "count").map Option.isSome = .ok hasCount → holds (withContext (contextNode, hasCount)) by
    clear_value withContext options
    cases options with
    | none => exact carries.yields (.pure _) fun _ same => same ▸ here none false rfl rfl
    | some options =>
      refine carries.behind (.attempt (legible_property options _)) fun contextNode context => ?_
      refine carries.behind (.attempt (legible_property options _)) fun count counted => ?_
      refine carries.yields (.pure _) fun _ same => same ▸ here contextNode count.isSome context ?_
      exact congrArg (Except.map Option.isSome) counted
  intro contextNode hasCount context count
  dsimp -zeta only [withContext]
  refine carries.given (reports_contextsOf contextNode) ?_
  rintro ⟨contexts, moreContexts⟩ - inContext
  dsimp -zeta only
  extract_lets withPlural
  suffices here : ∀ plural, AsksPlural situation call hasCount plural → holds (withPlural plural) by
    clear_value withPlural
    split
    next wanted =>
      refine carries.given (reports_optionValue options "ordinal") fun value _ read => ?_
      refine carries.behind (reports_pluralForms options _ among) fun forms _ => ?_
      exact carries.yields (.pure _) fun _ same => same ▸ here _ (.counted _ wanted read rfl)
    next unwanted =>
      exact carries.yields (.pure _) fun _ same => same ▸ here _ (.plain (Bool.eq_false_iff.mpr unwanted))
  intro plural asked
  dsimp -zeta only [withPlural]
  extract_lets withObject
  suffices here : ∀ isOpaque, holds (withObject isOpaque) by
    clear_value withObject
    split
    · exact carries.yields (.pure true) fun _ _ => here _
    · refine carries.behind (reports_optionValue options _) fun _ _ => ?_
      exact carries.yields (.pure _) fun _ _ => here _
  intro isOpaque
  exact sighted _ ⟨⟨inner, ⟨given, named, cut⟩, whole.symm⟩, gives_attempt context inContext, hasCount, count, asked⟩

theorem yields_referencesOf (default : Option String) :
    Yields situation (default.forM Search.reportReferences) ()
      (default.toList.flatMap situation.extraction.referred) := by
  cases default with
  | none => exact .pure ()
  | some text => simpa using yields_reportReferences text

end Keys

section Calls

variable {call : Node} {skips : Option (String → Bool)} {place : Option (Nat × Nat)}

/-- What is left of the keys that a call adds, as the call comes to it: it passes over blank keys, takes the endings off,
and passes over those again that are blank now or to be skipped. -/
theorem map_bare_added (extraction : Extraction) (skips : Option (String → Bool)) (named : List String) :
    (extraction.added skips named).map extraction.bare =
      ((((named.filter (!Text.isBlankText ·)).map extraction.bare).filter (!Text.isBlankText ·)).filter
        fun key => !skips.any fun skips => skipsKey extraction skips key) := by
  simp only [List.filter_map, List.filter_filter]
  refine congrArg (List.map _) (List.filter_congr fun key _ => ?_)
  rw [Bool.and_comm, Bool.and_comm (!Text.isBlankText key)]
  rfl

/-- A call of a translation function that has a binding or a known name, and the keys that its first argument names. -/
structure Names (situation : Situation) (call : Node) (binding : Option Binding) (named : List String) : Prop where
  function : ∃ callee, (call.child? .function).bind Node.memberChain? = some callee ∧
    situation.scopes.resolve callee = binding ∧
    (binding.isSome || matchesFunction situation.extraction.functions callee) = true
  keys : ∃ first further isSelector, call.callArguments = first :: further ∧
    Gives situation (Search.keysOfArgument first) (named, isSelector)

theorem Names.unique {binding other : Option Binding} {named others : List String}
    (one : Names situation call binding named) (two : Names situation call other others) :
    binding = other ∧ named = others := by
  obtain ⟨callee, chain, rfl, -⟩ := one.function
  obtain ⟨_, sameChain, rfl, -⟩ := two.function
  obtain ⟨first, _, _, arguments, gives⟩ := one.keys
  obtain ⟨_, _, _, sameArguments, givesSame⟩ := two.keys
  obtain rfl := Option.some.inj (chain.symm.trans sameChain)
  obtain ⟨rfl, -⟩ := List.cons.inj (arguments.symm.trans sameArguments)
  exact ⟨rfl, (Prod.mk.inj (gives_unique gives givesSame)).1⟩

/-- What a call reads to report its keys: besides the keys themselves its default text and its options, and the default
text among these. -/
structure Reads (situation : Situation) (call : Node) (setting : Search.CallSetting) (optionDefault : Option String)
    (named : List String) : Prop where
  names : Names situation call setting.binding named
  ordinal : named.any situation.extraction.endsOrdinal = setting.ordinalByKey
  options : Gives situation (Search.defaultAndOptions call.callArguments) (setting.callDefault, setting.options)
  default : ∃ literal, Gives situation (Search.optionValue setting.options "defaultValue") literal ∧
    optionDefault = match literal with
      | some (.text value) => some value
      | _ => none

/-- What is read of a call is read of it each time. -/
theorem Reads.unique {setting other : Search.CallSetting} {optionDefault default : Option String}
    {named others : List String} (one : Reads situation call setting optionDefault named)
    (two : Reads situation call other default others) :
    named = others ∧ setting.binding = other.binding ∧ setting.options = other.options ∧
      setting.ordinalByKey = other.ordinalByKey ∧
      (optionDefault <|> setting.callDefault) = (default <|> other.callDefault) := by
  obtain ⟨binding, rfl⟩ := one.names.unique two.names
  obtain ⟨callDefault, options⟩ := Prod.mk.inj (gives_unique one.options two.options)
  obtain ⟨literal, read, rfl⟩ := one.default
  obtain ⟨_, readAgain, rfl⟩ := two.default
  rw [options] at read
  obtain rfl := gives_unique read readAgain
  exact ⟨rfl, binding, options, one.ordinal.symm.trans two.ordinal, by rw [callDefault]⟩

/-- A property that carries over what is read first holds of the report of a call where it holds of a step that does
nothing, if the call adds no keys, and of the reports of the keys that it adds. -/
theorem opens_reportCall (carries : Carries situation holds)
    (nothing : (∀ binding named, Names situation call binding named → situation.extraction.added skips named = []) →
      holds (pure ()))
    (reads : ∀ setting optionDefault hasDefaultOptions named, Reads situation call setting optionDefault named →
      (∀ options ∈ setting.options, IsOptions call options) →
      let keys := (situation.extraction.added skips named).map situation.extraction.bare
      holds (keys.zipIdx.forM fun (key, index) =>
        Search.reportCallKey setting optionDefault hasDefaultOptions (index + 1 == keys.length) key)) :
    holds (Search.reportCall call skips place) := by
  refine carries.behind reports_extraction fun extraction same => ?_
  subst same
  split
  next unnamed =>
    refine nothing fun binding named names => ?_
    obtain ⟨callee, chain, -⟩ := names.function
    cases unnamed.symm.trans chain
  next callee chain =>
  refine carries.behind (reports_resolve callee) fun binding resolved => ?_
  subst resolved
  split
  next known =>
    split
    next none =>
      refine nothing fun binding named names => ?_
      obtain ⟨first, further, isSelector, arguments, -⟩ := names.keys
      cases none.symm.trans arguments
    next first further arguments =>
    refine carries.given (reports_keysOfArgument first) ?_
    rintro ⟨named, isSelector⟩ - keyed
    have names : Names situation call (situation.scopes.resolve callee) named :=
      ⟨⟨callee, chain, rfl, known⟩, first, further, isSelector, arguments, keyed⟩
    dsimp -zeta only
    extract_lets ending ordinalByKey nonblank unmarked keys
    have kept : (situation.extraction.added skips named).map situation.extraction.bare = keys := by
      rw [map_bare_added]
      cases skips with
      | none => exact List.filter_eq_self.mpr fun _ _ => rfl
      | some skips => rfl
    have byKey : named.any situation.extraction.endsOrdinal = ordinalByKey := rfl
    clear_value keys ordinalByKey
    subst kept byKey
    split
    next =>
      rw [← arguments]
      refine carries.given reports_defaultAndOptions ?_
      rintro ⟨callDefault, options⟩ ⟨-, among⟩ read
      refine carries.given (reports_optionValue options _) fun literal _ inOptions => ?_
      extract_lets optionDefault
      refine carries.behind (reports_givesDefaults options among) fun hasDefaultOptions _ => ?_
      dsimp -zeta only
      refine carries.behind reports_file fun file _ => ?_
      refine carries.behind (.attempt (legible_location _ _ _)) fun location _ => ?_
      exact reads _ _ _ _ ⟨names, rfl, read, literal, inOptions, rfl⟩ among
    next none =>
      refine nothing fun binding others same => ?_
      obtain ⟨-, rfl⟩ := names.unique same
      simpa using none
  next unknown =>
    refine nothing fun binding named names => ?_
    obtain ⟨other, sameChain, resolved, known⟩ := names.function
    obtain rfl := Option.some.inj (chain.symm.trans sameChain)
    rw [← resolved] at known
    exact absurd known unknown

/-- A key that is added is not blank without its ending. -/
theorem filled_of_mem_added {extraction : Extraction} {skips : Option (String → Bool)} {named : List String} {key : String}
    (member : key ∈ (extraction.added skips named).map extraction.bare) : Text.isBlankText key = false := by
  rw [map_bare_added] at member
  simpa using (List.mem_filter.mp (List.mem_filter.mp member).1).2

end Calls

end Proofs.CallReadings
end Phrasebook
