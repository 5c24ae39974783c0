import Phrasebook.Proofs.CallReadings

/-! The kind of plural under which a call adds its keys. A key that ends in the word for numbering asks for an ordinal,
and a call that names such a key takes all its keys for ordinals. So each key has the kind that it asks for itself just
where it has this ending, or no key of the call has it, or the options ask for an ordinal. -/

namespace Phrasebook

/-- The kind of plural of a key, whether or not its ending asks for an ordinal, under options that have a count or not
and ask for an ordinal or not: none, a plural (`false`), or an ordinal (`true`). -/
def pluralKind (hasCount ordinal byKey : Bool) : Option Bool :=
  if byKey || (hasCount && ordinal) then some true else if hasCount then some false else none

theorem pluralKind_eq_iff {hasCount ordinal byKey byOther : Bool} (weaker : byKey = true → byOther = true) :
    pluralKind hasCount ordinal byOther = pluralKind hasCount ordinal byKey ↔
      byKey = true ∨ byOther = false ∨ (hasCount = true ∧ ordinal = true) := by
  revert weaker
  cases hasCount <;> cases ordinal <;> cases byKey <;> cases byOther <;> decide

namespace Extraction

variable (extraction : Extraction)

/-- The kind of plural of a key of a call where plurals can be switched off. -/
def kindOf (hasCount ordinal byKey : Bool) : Option Bool :=
  if extraction.disablePlurals then none else pluralKind hasCount ordinal byKey

theorem kindOf_eq (hasCount ordinal byKey : Bool) :
    extraction.kindOf hasCount ordinal byKey =
      if (hasCount || byKey) && !extraction.disablePlurals then some (ordinal || byKey) else none := by
  unfold kindOf
  cases extraction.disablePlurals <;> cases hasCount <;> cases ordinal <;> cases byKey <;> rfl

end Extraction

namespace Proofs.CallKinds

open CallReadings Catalog CallsAndElements KeyNames SearchFailures SearchSteps SiteReports Syntax

variable {situation : Situation} {binding : Option Binding}

/-- What a call adds for a key: nothing where nothing is left of it or a segment is left blank, else the keys of a
sighting of the kind, and behind those without a kind the keys that texts refer to. -/
inductive AddedFor (extraction : Extraction) (binding : Option Binding) (given : Option String) (kind : Option Bool)
    (key : String) : List Key → Prop
  | nothing (left : (extraction.cut? binding given key).bind (extraction.whole? binding ·.2) = none) :
      AddedFor extraction binding given kind key []
  | sighted {inner : String} (sighting : Sighting) (referred : List Key)
      (cut : extraction.cut? binding given key = some (sighting.namespaceName, inner))
      (whole : extraction.whole? binding inner = some sighting.key)
      (asked : sighting.plural.map PluralRequest.ordinal = kind) (plain : kind ≠ none → referred = []) :
      AddedFor extraction binding given kind key (sighting.keys extraction ++ referred)

/-- What options say of all keys of a call: a namespace, whether there is a count, and whether they ask for an ordinal. -/
structure OptionsSay (situation : Situation) (options : Option Node) (given : Option String)
    (hasCount ordinal : Bool) : Prop where
  named : Gives situation (Search.namespaceOfOptions options) given
  count : (memberOf options "count").map Option.isSome = .ok hasCount
  ordinal : ∃ value, Gives situation (Search.optionValue options "ordinal") value ∧
    (value == some (.truth true)) = ordinal

section Keys

variable {site : Node} {given : Option String} {hasCount ordinal : Bool} {kind : Option Bool}

/-- A key that a call names is added with the kind that the call has for all its keys. -/
theorem leaves_reportCallKey {call : Search.CallSetting} (optionDefault : Option String)
    (hasDefaultOptions isLast : Bool) {key : String} (filled : Text.isBlankText key = false)
    (among : ∀ options ∈ call.options, IsOptions site options)
    (say : OptionsSay situation call.options given hasCount ordinal)
    (asks : situation.extraction.kindOf hasCount ordinal call.ordinalByKey = kind) :
    Leaves situation (Search.reportCallKey call optionDefault hasDefaultOptions isLast key) fun _ =>
      AddedFor situation.extraction call.binding given kind key := by
  refine opens_reportCallKey .leaves filled among (fun _ named left => ?_) fun sighting sights => ?_
  · rw [gives_unique named say.named] at left
    exact .pure (.nothing left)
  obtain ⟨inner, ⟨_, named, cut⟩, whole⟩ := sights.taken
  rw [gives_unique named say.named] at cut
  have asked : sighting.plural.map PluralRequest.ordinal = kind := by
    obtain ⟨counted, count, plural⟩ := sights.plural
    obtain rfl := Except.ok.inj (count.symm.trans say.count)
    rw [← asks, Extraction.kindOf_eq]
    generalize sighting.plural = request at plural
    cases plural with
    | plain unwanted =>
      rw [unwanted]
      rfl
    | counted request wanted read requested =>
      obtain ⟨literal, readOrdinal, asked⟩ := say.ordinal
      rw [if_pos wanted, ← asked, gives_unique readOrdinal read, ← requested]
      rfl
  have reported : Leaves situation (Search.report sighting) fun _ seen => seen = sighting.keys situation.extraction :=
    .of_yields (yields_report (sights.filled filled)) rfl
  refine reported.bind ?_
  rintro _ _ rfl
  split
  next plain =>
    have kindless : kind = none := by
      rw [Sighting.isPlain, Bool.and_eq_true, Bool.and_eq_true, Option.isNone_iff_eq_none] at plain
      rw [← asked]
      exact congrArg (Option.map PluralRequest.ordinal) plain.1.1
    refine .of_yields ((yields_reportReferences sighting.key).bind (yields_referencesOf _)) ?_
    exact .sighted sighting _ cut whole asked fun counted => absurd kindless counted
  next =>
    exact .pure (.sighted sighting [] cut whole asked fun _ => rfl)

end Keys

section Calls

/-- A call of a translation function that has a binding or a known name: the keys that its first argument names, and what
its options say of all of them. -/
structure CallNames (situation : Situation) (call : Node) (binding : Option Binding) (named : List String)
    (given : Option String) (hasCount ordinal : Bool) : Prop where
  function : ∃ callee, (call.child? .function).bind Node.memberChain? = some callee ∧
    situation.scopes.resolve callee = binding ∧
    (binding.isSome || matchesFunction situation.extraction.functions callee) = true
  keys : ∃ first further isSelector, call.callArguments = first :: further ∧
    Gives situation (Search.keysOfArgument first) (named, isSelector)
  options : ∃ default options, Gives situation (Search.defaultAndOptions call.callArguments) (default, options) ∧
    OptionsSay situation options given hasCount ordinal

variable {call : Node} {named : List String} {given : Option String} {hasCount ordinal : Bool}

/-- All keys that a call adds have one kind: an ordinal where any key that it names asks for one. -/
theorem leaves_reportCall (names : CallNames situation call binding named given hasCount ordinal)
    (skips : Option (String → Bool)) (place : Option (Nat × Nat)) :
    Leaves situation (Search.reportCall call skips place) fun _ seen =>
      ∃ groups, List.Forall₂ (AddedFor situation.extraction binding given
          (situation.extraction.kindOf hasCount ordinal (named.any situation.extraction.endsOrdinal)))
        ((situation.extraction.added skips named).map situation.extraction.bare) groups ∧ seen = groups.flatten := by
  obtain ⟨default, options, read, say⟩ := names.options
  have keyed : Names situation call binding named := ⟨names.function, names.keys⟩
  refine opens_reportCall .leaves (fun none => ?_) fun setting optionDefault hasDefaultOptions others reads among => ?_
  · rw [none binding named keyed]
    exact .pure ⟨[], .nil, rfl⟩
  obtain ⟨rfl, rfl⟩ := keyed.unique reads.names
  obtain ⟨-, rfl⟩ := Prod.mk.inj (gives_unique read reads.options)
  rw [reads.ordinal]
  intro keys
  have each (item : String × Nat) (member : item ∈ keys.zipIdx) :
      Leaves situation (Search.reportCallKey setting optionDefault hasDefaultOptions
        (item.2 + 1 == keys.length) item.1) fun _ seen =>
          AddedFor situation.extraction setting.binding given
            (situation.extraction.kindOf hasCount ordinal setting.ordinalByKey) item.1 seen :=
    leaves_reportCallKey _ _ _ (filled_of_mem_added (List.fst_mem_of_mem_zipIdx member)) among say rfl
  refine (Leaves.forM each).mono fun _ seen left => ?_
  obtain ⟨groups, added, flat⟩ := left
  refine ⟨groups, ?_, flat⟩
  change List.Forall₂ _ keys groups
  rwa [← List.zipIdx_map_fst 0 keys, List.forall₂_map_left_iff]

/-- A call that the search gets through adds a group of keys for each key that it names and does not pass over, all of
one kind. Where plurals are not switched off, this is the kind that the key asks for itself, by its own ending and the
options alone, just where it ends in the word for numbering, or no key of the call does, or the options ask for an
ordinal beside a count. -/
theorem kinds_of_call (names : CallNames situation call binding named given hasCount ordinal)
    (skips : Option (String → Bool)) (place : Option (Nat × Nat))
    (ends : Gives situation (Search.reportCall call skips place) ()) :
    let byKey := named.any situation.extraction.endsOrdinal
    let kind := situation.extraction.kindOf hasCount ordinal byKey
    (∃ groups, Yields situation (Search.reportCall call skips place) () groups.flatten ∧
      List.Forall₂ (AddedFor situation.extraction binding given kind)
        ((situation.extraction.added skips named).map situation.extraction.bare) groups) ∧
    (situation.extraction.disablePlurals = false → ∀ key ∈ situation.extraction.added skips named,
      (kind = pluralKind hasCount ordinal (situation.extraction.endsOrdinal key) ↔
        situation.extraction.endsOrdinal key = true ∨ byKey = false ∨ (hasCount = true ∧ ordinal = true))) := by
  intro byKey kind
  obtain ⟨_, yields, groups, added, rfl⟩ := (leaves_reportCall names skips place).yields ends
  refine ⟨⟨groups, yields, added⟩, fun enabled key member => ?_⟩
  have plain : kind = pluralKind hasCount ordinal byKey := by
    dsimp only [kind]
    rw [Extraction.kindOf, enabled, if_neg Bool.false_ne_true]
  have among : situation.extraction.endsOrdinal key = true → byKey = true :=
    fun marked => List.any_eq_true.mpr ⟨key, (List.mem_filter.mp member).1, marked⟩
  rw [plain]
  exact pluralKind_eq_iff among

end Calls

section Examples

open FirstSightings

def severalCall : Node := expressionOf "t([c ? 'a_ordinal' : 'b', 'other:d'], \x7bcount: 1, ordinal: true\x7d);"

theorem severalCall_names :
    CallNames behindPrefix severalCall (some prefixing) ["a_ordinal", "b", "other:d"] none true true := by
  have checked : (((severalCall.child? .function).bind Node.memberChain? = some "t" ∧
        behindPrefix.scopes.resolve "t" = some prefixing) ∧ severalCall.callArguments.length = 2) ∧
      (severalCall.callArguments.head?).any (fun first : Node =>
        Gives behindPrefix (Search.keysOfArgument first) (["a_ordinal", "b", "other:d"], false)) = true ∧
      ((severalCall.callArguments[1]?).bind Node.unwrap).any (fun options : Node => options.kind = .object ∧
        Gives behindPrefix (Search.namespaceOfOptions options) none ∧
        (memberOf options "count").map Option.isSome = .ok true ∧
        Gives behindPrefix (Search.optionValue options "ordinal") (some (.truth true))) = true := by
    decide +kernel
  simp only [Option.any_eq_true, decide_eq_true_eq] at checked
  obtain ⟨⟨⟨chain, resolved⟩, few⟩, ⟨first, head, keyed⟩, options, second, object, unnamed, count, asked⟩ := checked
  obtain ⟨further, arguments⟩ := List.head?_eq_some_iff.mp head
  refine ⟨⟨"t", chain, resolved, rfl⟩, ⟨first, further, false, arguments, keyed⟩, none, some options, ?_, ?_⟩
  · exact gives_defaultAndOptions few second object
  · exact ⟨unnamed, count, _, asked, rfl⟩

/-- Where the options ask for an ordinal, each key of a call has its own kind, whatever other keys end in. -/
theorem several_keys_are_ordinals :
    CallNames behindPrefix severalCall (some prefixing) ["a_ordinal", "b", "other:d"] none true true ∧
      (∃ groups, Yields behindPrefix (Search.reportCall severalCall none none) () groups.flatten ∧
        List.Forall₂ (AddedFor behindPrefix.extraction (some prefixing) none (some true)) ["a", "b", "other:d"]
          groups) ∧
      pluralKind true true (behindPrefix.extraction.endsOrdinal "b") = some true := by
  have ends : Gives behindPrefix (Search.reportCall severalCall none none) () := by decide +kernel
  obtain ⟨⟨groups, yields, added⟩, own⟩ := kinds_of_call severalCall_names none none ends
  have kind : behindPrefix.extraction.kindOf true true
      (["a_ordinal", "b", "other:d"].any behindPrefix.extraction.endsOrdinal) = some true := by decide +kernel
  have keys : (behindPrefix.extraction.added none ["a_ordinal", "b", "other:d"]).map behindPrefix.extraction.bare =
      ["a", "b", "other:d"] := by decide +kernel
  rw [kind, keys] at added
  refine ⟨severalCall_names, ⟨groups, yields, added⟩, ?_⟩
  rw [← (own rfl "b" (by decide +kernel)).mpr (Or.inr (Or.inr ⟨rfl, rfl⟩)), kind]

/-- A key with a count that does not end in the word for numbering becomes an ordinal beside one that does. -/
theorem plural_beside_ordinal_becomes_ordinal :
    Table.names (keysIn "t(['a_ordinal', 'b'], \x7bcount: 1\x7d);") = ["translation:a#ordinal", "translation:b#ordinal"] ∧
      Table.names (keysIn "t(['b'], \x7bcount: 1\x7d);") = ["translation:b#plural"] := by
  refine ⟨?_, ?_⟩
  · decide +kernel
  · decide +kernel

end Examples

end Proofs.CallKinds
end Phrasebook
