import Mathlib.Data.List.DropRight
import Mathlib.Data.List.Infix
import Phrasebook.Proofs.CallReadings
import Phrasebook.Proofs.FirstSightings

/-! References of keys and texts to other keys, such as `$t(name)`. They are looked for from the left, and none is looked
for inside another one. Only a call that adds a key without a count and without contexts looks for them: there each
reference to a plain name that the search comes to adds the key of this name. -/

namespace Phrasebook

namespace Reference

open Text

/-- The length of the reference at the start of a text, with its marks. -/
def length? (opening closing text : List Char) : Option Nat :=
  (after? opening text).bind fun behind =>
    (contentLength? closing behind).map fun length => opening.length + length + closing.length

/-- The places of a text, by what stands from there on, where a search for references from the left looks for one: it goes
on by one character where there is none, and behind it where there is one. -/
inductive Reached (opening closing : List Char) : List Char → List Char → Prop
  | start (text : List Char) : Reached opening closing text text
  | past {c : Char} {rest here : List Char} (none : length? opening closing (c :: rest) = none)
      (later : Reached opening closing rest here) : Reached opening closing (c :: rest) here
  | beyond {c : Char} {rest here : List Char} {length : Nat} (found : length? opening closing (c :: rest) = some length)
      (later : Reached opening closing (rest.drop (length - 1)) here) : Reached opening closing (c :: rest) here

/-- A name that a reference can have by itself: not blank, and without parentheses, quotes, the mark of options and the
one of namespaces. -/
structure PlainName (extraction : Extraction) (name : List Char) : Prop where
  filled : name.all Text.isBlank = false
  unmarked : ∀ c ∈ name, isPlain c = true ∧ c ≠ ','
  unnamed : ∀ mark, extraction.namespaceSeparator.mark? = some mark → ¬ mark.toList <:+: name

end Reference

namespace Proofs.References

open CallReadings CallsAndElements Catalog Reference SearchSteps Segments SiteReports Syntax Text

section Contents

variable {opening closing name behind text here : List Char}

theorem head?_extents (plain : ∀ c ∈ name, isPlain c = true) (behind : List Char) (places : List (List Nat)) :
    ∃ beyond, (extents [')'] (name ++ ')' :: behind) places).head? = some ⟨some name.length, beyond⟩ ∧
      (name ≠ [] → beyond = some name.length) := by
  induction name generalizing places with
  | nil => exact ⟨_, rfl, fun some => absurd rfl some⟩
  | cons c name ih =>
    obtain ⟨here, later⟩ := List.forall_mem_cons.mp plain
    obtain ⟨beyond, head, known⟩ := ih later places.tail
    have open' : after? [')'] (c :: (name ++ ')' :: behind)) = none := by
      have different : ')' ≠ c := by
        rintro rfl
        exact absurd here (by decide)
      simp [after?, different]
    refine ⟨some (name.length + 1), ?_, fun _ => rfl⟩
    have first : (extents [')'] (name ++ ')' :: behind) places.tail)[0]? = some ⟨some name.length, beyond⟩ := by
      rw [← List.head?_eq_getElem?, head]
    rw [List.cons_append, extents]
    dsimp only
    rw [open', here, if_pos rfl, head, Nat.sub_self, first, Option.isSome_none, if_neg Bool.false_ne_true]
    cases name with
    | nil => rfl
    | cons d name =>
      rw [known (List.cons_ne_nil d name)]
      simp [later]

/-- The content of a reference that is a plain name ends where the name does. -/
theorem contentLength?_plain (plain : ∀ c ∈ name, isPlain c = true) (behind : List Char) :
    contentLength? [')'] (name ++ ')' :: behind) = some name.length := by
  obtain ⟨beyond, head, -⟩ := head?_extents plain behind (closings (name ++ ')' :: behind))
  rw [contentLength?, head]
  rfl

theorem contentsFrom_skip (skip : Nat) (text : List Char) :
    contentsFrom opening closing skip text = contentsFrom opening closing 0 (text.drop skip) := by
  induction skip generalizing text with
  | zero => rfl
  | succ skip ih =>
    cases text with
    | nil => simp [contentsFrom]
    | cons c rest => exact ih rest

theorem contentsFrom_past {c : Char} {rest : List Char} (none : length? opening closing (c :: rest) = none) :
    contentsFrom opening closing 0 (c :: rest) = contentsFrom opening closing 0 rest := by
  rw [contentsFrom]
  split
  · rfl
  next behind found =>
    split
    · rfl
    next length measured => simp [length?, found, measured] at none

theorem contentsFrom_beyond {c : Char} {rest : List Char} {length : Nat}
    (found : length? opening closing (c :: rest) = some length) : ∃ content,
      contentsFrom opening closing 0 (c :: rest) = content :: contentsFrom opening closing 0 (rest.drop (length - 1)) := by
  obtain ⟨behind, opened, measured⟩ := Option.bind_eq_some_iff.mp found
  obtain ⟨inner, closed, rfl⟩ := Option.map_eq_some_iff.mp measured
  refine ⟨behind.take inner, ?_⟩
  rw [contentsFrom, opened]
  dsimp only
  rw [closed, ← contentsFrom_skip]

/-- What is found from a place that the search comes to is found from the start. -/
theorem contentsFrom_subset (reached : Reached opening closing text here) :
    contentsFrom opening closing 0 here ⊆ contentsFrom opening closing 0 text := by
  induction reached with
  | start => exact List.Subset.refl _
  | past none _ ih =>
    rw [contentsFrom_past none]
    exact ih
  | beyond found _ ih =>
    obtain ⟨content, whole⟩ := contentsFrom_beyond found
    rw [whole]
    exact List.subset_cons_of_subset _ ih

/-- A plain name between the marks of a reference is found where the search comes to it. -/
theorem name_mem_contentsFrom (opened : opening ≠ []) (plain : ∀ c ∈ name, isPlain c = true)
    (reached : Reached opening [')'] text (opening ++ name ++ ')' :: behind)) :
    name ∈ contentsFrom opening [')'] 0 text := by
  refine contentsFrom_subset reached ?_
  obtain ⟨c, rest, rfl⟩ := List.exists_cons_of_ne_nil opened
  have found : after? (c :: rest) (c :: (rest ++ name ++ ')' :: behind)) = some (name ++ ')' :: behind) := by
    have start := after?_append (c :: rest) (name ++ ')' :: behind)
    rwa [List.cons_append, ← List.append_assoc] at start
  rw [List.cons_append, List.cons_append, contentsFrom, found]
  dsimp only
  rw [contentLength?_plain plain]
  dsimp only
  rw [List.take_left]
  exact List.mem_cons_self

end Contents

section Keys

variable {extraction : Extraction} {name : List Char}

/-- References to other keys are written as they are by default. -/
structure DefaultNesting (extraction : Extraction) : Prop where
  opening : extraction.nestingStart = "$t("
  closing : extraction.nestingEnd = ")"
  options : extraction.nestingOptionsSeparator = ","

theorem trimChars_inside (text : List Char) : trimChars text <:+: text :=
  (List.rdropWhile_prefix isBlank _).isInfix.trans (List.dropWhile_suffix isBlank).isInfix

theorem all_dropWhile {test : Char → Bool} (text : List Char) : (text.dropWhile test).all test = text.all test := by
  induction text with
  | nil => rfl
  | cons c text ih =>
    rw [List.dropWhile_cons, List.all_cons]
    cases here : test c with
    | true => simpa using ih
    | false => simp [here]

theorem all_trimChars (text : List Char) : (trimChars text).all isBlank = text.all isBlank := by
  rw [trimChars, trimEnd, List.all_reverse, all_dropWhile, List.all_reverse, all_dropWhile]

theorem unquote_plain (plain : ∀ c ∈ name, isPlain c = true) : unquote name = name := by
  fun_cases unquote name with
  | case1 first second rest quoted =>
    have here := plain first List.mem_cons_self
    simp only [isPlain, Bool.and_eq_true, decide_eq_true_eq, Bool.or_eq_true] at here quoted
    exact absurd quoted.1 (not_or.mpr ⟨here.1.2, here.2⟩)
  | case2 => rfl
  | case3 => rfl

theorem cut?_of_not_infix {mark text : List Char} (absent : ¬ mark <:+: text) : cut? mark text = none := by
  refine Option.eq_none_iff_forall_ne_some.mpr ?_
  rintro ⟨before, behind⟩ found
  exact absent ⟨before, behind, (eq_append_of_cut? found).symm⟩

/-- The key that a reference to a plain name asks for. -/
theorem keys_ofContent (plain : PlainName extraction name) :
    (ofContent [','] name).keys extraction =
      [{ text := String.ofList (trimChars name)
         namespaceName := extraction.defaultNamespace
         defaultValue := some (String.ofList (trimChars name)) }] := by
  have whole : cut? [','] name = none :=
    cut?_of_not_infix fun inside => (plain.unmarked _ ((List.singleton_infix_iff _ _).mp inside)).2 rfl
  have unquoted : unquote (trimChars name) = trimChars name :=
    unquote_plain fun c member => (plain.unmarked c ((trimChars_inside name).subset member)).1
  have content : ofContent [','] name = ⟨trimChars name, []⟩ := by
    rw [ofContent, whole]
    exact congrArg (Reference.mk · []) unquoted
  have filled : isBlankText (String.ofList (trimChars name)) = false := by
    rw [isBlankText, String.toList_ofList, all_trimChars, plain.filled]
  have target : (⟨trimChars name, []⟩ : Reference).target? extraction =
      some (extraction.defaultNamespace, String.ofList (trimChars name)) := by
    unfold Reference.target?
    dsimp only
    rw [filled, if_neg Bool.false_ne_true]
    cases marked : extraction.namespaceSeparator.mark? with
    | none => rfl
    | some mark =>
      have single : split mark (String.ofList (trimChars name)) = [String.ofList (trimChars name)] := by
        rw [split, String.toList_ofList, splitChars_of_cut?_none]
        · rfl
        · exact cut?_of_not_infix fun inside => plain.unnamed mark marked (inside.trans (trimChars_inside name))
      rw [Option.map_some, single]
  rw [content, Reference.keys, target]
  rfl

theorem exists_mem_referred {text : String} {behind : List Char} (nesting : DefaultNesting extraction)
    (plain : PlainName extraction name)
    (reached : Reached "$t(".toList [')'] text.toList ("$t(".toList ++ name ++ ')' :: behind)) :
    ∃ key ∈ extraction.referred text, key.name = ⟨extraction.defaultNamespace, String.ofList (trimChars name), none⟩ := by
  have content : name ∈ contentsFrom "$t(".toList [')'] 0 text.toList :=
    name_mem_contentsFrom (by decide) (fun c member => (plain.unmarked c member).1) reached
  have some : name ≠ [] := by
    rintro rfl
    exact absurd plain.filled (by decide)
  have found : ofContent [','] name ∈ Reference.all extraction.nestingStart extraction.nestingEnd
      extraction.nestingOptionsSeparator text := by
    rw [nesting.opening, nesting.closing, nesting.options]
    exact List.mem_map_of_mem (List.mem_filter.mpr ⟨content, by simpa using some⟩)
  have keys := keys_ofContent plain
  exact ⟨_, List.mem_flatMap.mpr ⟨_, found, keys ▸ List.mem_singleton_self _⟩, rfl⟩

end Keys

section Calls

variable {situation : Situation} {call : Node} {setting : Search.CallSetting} {optionDefault : Option String}
  {named : List String} {written whole : String} {skips : Option (String → Bool)} {place : Option (Nat × Nat)}

/-- A call takes a key without a count and without contexts. -/
structure TakesPlain (situation : Situation) (setting : Search.CallSetting) (written whole : String) : Prop where
  takes : ∃ namespaceName inner, Takes situation setting written namespaceName inner whole
  contextless : Gives situation (Search.attempt (memberOf setting.options "context") >>= Search.contextsOf) ([], false)
  uncounted : ∃ hasCount, (memberOf setting.options "count").map Option.isSome = .ok hasCount ∧
    ((hasCount || setting.ordinalByKey) && !situation.extraction.disablePlurals) = false

/-- The keys to which a key and the default text of its call refer. -/
def referredBy (extraction : Extraction) (whole : String) (default : Option String) : List Key :=
  extraction.referred whole ++ default.toList.flatMap extraction.referred

theorem TakesPlain.isPlain {sighting : Sighting} (plain : TakesPlain situation setting written whole)
    (sights : Sights situation setting written sighting) : sighting.key = whole ∧ sighting.isPlain = true := by
  obtain ⟨namespaceName, inner, ⟨given, read, cut⟩, known⟩ := plain.takes
  obtain ⟨_, ⟨_, readAgain, cutAgain⟩, knownAgain⟩ := sights.taken
  obtain rfl := gives_unique read readAgain
  obtain ⟨-, rfl⟩ := Prod.mk.inj (Option.some.inj (cut.symm.trans cutAgain))
  obtain ⟨contexts, more⟩ := Prod.mk.inj (gives_unique sights.contexts plain.contextless)
  obtain ⟨counted, count, unwanted⟩ := plain.uncounted
  obtain ⟨_, countAgain, plural⟩ := sights.plural
  obtain rfl := Except.ok.inj (count.symm.trans countAgain)
  refine ⟨Option.some.inj (knownAgain.symm.trans known), ?_⟩
  have unasked : sighting.plural = none := by
    generalize sighting.plural = request at plural
    cases plural with
    | plain => rfl
    | counted _ wanted => cases unwanted.symm.trans wanted
  rw [Sighting.isPlain, unasked, contexts, more]
  rfl

/-- A plain key is followed by the keys to which it and the default text refer. -/
theorem leaves_reportCallKey {hasDefaultOptions isLast : Bool} (filled : isBlankText written = false)
    (among : ∀ options ∈ setting.options, IsOptions call options) :
    Leaves situation (Search.reportCallKey setting optionDefault hasDefaultOptions isLast written) fun _ seen =>
      ∀ whole, TakesPlain situation setting written whole →
        referredBy situation.extraction whole (optionDefault <|> setting.callDefault) ⊆ seen := by
  refine opens_reportCallKey .leaves filled among (fun given read left => .pure fun whole plain => ?_)
    fun sighting sights => ?_
  · obtain ⟨namespaceName, inner, ⟨_, readAgain, cut⟩, known⟩ := plain.takes
    rw [gives_unique read readAgain, cut, Option.bind_some, known] at left
    cases left
  have reported : Yields situation (Search.report sighting) () _ := yields_report (sights.filled filled)
  split
  next =>
    refine .of_yields (reported.bind ((yields_reportReferences sighting.key).bind (yields_referencesOf _)))
      fun whole plain => ?_
    obtain ⟨rfl, -⟩ := plain.isPlain sights
    exact List.subset_append_right _ _
  next counted =>
    exact .of_yields (reported.bind (.pure ())) fun whole plain => absurd (plain.isPlain sights).2 counted

theorem exists_of_forall₂ {α : Type} {group : α → List Key → Prop} {items : List α} {groups : List (List Key)} {item : α}
    (related : List.Forall₂ group items groups) (member : item ∈ items) : ∃ seen ∈ groups, group item seen := by
  induction related with
  | nil => cases member
  | cons here _ ih =>
    rcases List.mem_cons.mp member with rfl | later
    · exact ⟨_, List.mem_cons_self, here⟩
    · obtain ⟨seen, inside, held⟩ := ih later
      exact ⟨seen, List.mem_cons_of_mem _ inside, held⟩

/-- A call adds the keys to which its plain keys and its default text refer. -/
theorem leaves_reportCall (reads : Reads situation call setting optionDefault named)
    (member : written ∈ (situation.extraction.added skips named).map situation.extraction.bare)
    (plain : TakesPlain situation setting written whole) :
    Leaves situation (Search.reportCall call skips place) fun _ seen =>
      referredBy situation.extraction whole (optionDefault <|> setting.callDefault) ⊆ seen := by
  refine opens_reportCall .leaves (fun none => ?_) fun other default hasDefaultOptions others readsAgain among => ?_
  · rw [none _ _ reads.names] at member
    cases member
  obtain ⟨rfl, binding, options, byKey, same⟩ := reads.unique readsAgain
  replace plain : TakesPlain situation other written whole := by
    obtain ⟨⟨namespaceName, inner, ⟨given, read, cut⟩, known⟩, contextless, uncounted⟩ := plain
    rw [options] at read contextless uncounted
    rw [binding] at cut known
    rw [byKey] at uncounted
    exact ⟨⟨namespaceName, inner, ⟨given, read, cut⟩, known⟩, contextless, uncounted⟩
  rw [same]
  intro keys
  have each (item : String × Nat) (inside : item ∈ keys.zipIdx) :
      Leaves situation (Search.reportCallKey other default hasDefaultOptions (item.2 + 1 == keys.length) item.1)
        fun _ seen => ∀ whole, TakesPlain situation other item.1 whole →
          referredBy situation.extraction whole (default <|> other.callDefault) ⊆ seen :=
    leaves_reportCallKey (filled_of_mem_added (List.fst_mem_of_mem_zipIdx inside)) among
  refine (Leaves.forM each).mono fun _ seen left => ?_
  obtain ⟨groups, related, rfl⟩ := left
  change written ∈ keys at member
  rw [← List.zipIdx_map_fst 0 keys, List.mem_map] at member
  obtain ⟨item, inside, rfl⟩ := member
  obtain ⟨group, among, held⟩ := exists_of_forall₂ related inside
  exact fun key referred => List.mem_flatten.mpr ⟨group, among, held whole plain referred⟩

/-- A key that a step sees is found by its name afterwards. -/
theorem has_of_mem_seen {step : Search Unit} {seen : List Key} {key : Key} (yields : Yields situation step () seen)
    (member : key ∈ seen) (keys : KeyMap) (journal : Journal) :
    Table.has key.identity (outcome step situation.task (situation.holding keys journal)).2.keys = true := by
  obtain ⟨report, does, -, rfl⟩ := yields
  have found : (outcome step situation.task (situation.holding keys journal)).2.keys =
      report.seen.foldl KeyMap.add keys := by
    rw [does.runs]
    rfl
  rw [found, Table.has, FirstSightings.find?_foldl_add]
  cases Table.find? key.identity keys with
  | some known => rfl
  | none =>
    cases among : report.seen.filter fun other => other.identity = key.identity with
    | nil => exact absurd (decide_eq_true rfl) (List.filter_eq_nil_iff.mp among key member)
    | cons first later => rfl

/-- A call that the search gets through adds, for a key without a count and without contexts, an entry for each plain name
to which the search for references comes in this key or in the default text of the call. -/
theorem references_of_call (nesting : DefaultNesting situation.extraction)
    (reads : Reads situation call setting optionDefault named)
    (member : written ∈ (situation.extraction.added skips named).map situation.extraction.bare)
    (plain : TakesPlain situation setting written whole)
    (ends : Gives situation (Search.reportCall call skips place) ()) {text : String}
    (inside : text = whole ∨ text ∈ (optionDefault <|> setting.callDefault)) {name behind : List Char}
    (refers : PlainName situation.extraction name)
    (reached : Reached "$t(".toList [')'] text.toList ("$t(".toList ++ name ++ ')' :: behind))
    (keys : KeyMap) (journal : Journal) :
    Table.has (KeyName.identity ⟨situation.extraction.defaultNamespace, String.ofList (trimChars name), none⟩)
      (outcome (Search.reportCall call skips place) situation.task (situation.holding keys journal)).2.keys = true := by
  obtain ⟨seen, yields, held⟩ := (leaves_reportCall reads member plain).yields ends
  obtain ⟨key, referred, same⟩ := exists_mem_referred nesting refers reached
  have among : key ∈ referredBy situation.extraction whole (optionDefault <|> setting.callDefault) := by
    rcases inside with rfl | default
    · exact List.mem_append_left _ referred
    · exact List.mem_append_right _ (List.mem_flatMap.mpr ⟨text, Option.mem_toList.mpr default, referred⟩)
  rw [← same, KeyNames.identity_name]
  exact has_of_mem_seen yields (held among) keys journal

end Calls

section Examples

open FirstSightings

/-- The search of a file in which nothing is declared. -/
def undeclared : Situation where
  task := ⟨plainEnglish, "src/a.tsx"⟩
  scopes := {}
  constants := []

def referringCall : Node := expressionOf "t('$t(a) or $t( b )');"

def referringSetting : Search.CallSetting where
  binding := none
  callDefault := none
  options := none
  ordinalByKey := false
  isSelector := false
  location := default

theorem referringCall_reads : Reads undeclared referringCall referringSetting none ["$t(a) or $t( b )"] := by
  have checked : ((referringCall.child? .function).bind Node.memberChain? = some "t" ∧
        undeclared.scopes.resolve "t" = none ∧ referringCall.callArguments.length = 1) ∧
      (referringCall.callArguments.head?).any (fun first : Node =>
        Gives undeclared (Search.keysOfArgument first) (["$t(a) or $t( b )"], false)) = true := by
    decide +kernel
  simp only [Option.any_eq_true, decide_eq_true_eq] at checked
  obtain ⟨⟨chain, resolved, alone⟩, first, head, keyed⟩ := checked
  obtain ⟨further, arguments⟩ := List.head?_eq_some_iff.mp head
  have nothing : further = [] := by
    rw [arguments, List.length_cons, Nat.succ_inj] at alone
    exact List.length_eq_zero_iff.mp alone
  subst nothing
  refine ⟨⟨⟨"t", chain, resolved, rfl⟩, first, [], false, arguments, keyed⟩, by decide +kernel, ?_, none, rfl, rfl⟩
  rw [arguments]
  rfl

theorem referringCall_takesPlain :
    TakesPlain undeclared referringSetting "$t(a) or $t( b )" "$t(a) or $t( b )" :=
  ⟨⟨"translation", _, ⟨none, rfl, by decide +kernel⟩, rfl⟩, rfl, false, rfl, rfl⟩

theorem plainName_b : PlainName undeclared.extraction [' ', 'b', ' '] where
  filled := by decide
  unmarked := by simp [isPlain]
  unnamed := by
    intro mark marked
    obtain rfl : ":" = mark := Option.some.inj marked
    decide

/-- Of two references in a key the search comes to the second one behind the first. -/
theorem reached_b : Reached "$t(".toList [')'] "$t(a) or $t( b )".toList ("$t(".toList ++ [' ', 'b', ' '] ++ [')']) := by
  have found : length? ['$', 't', '('] [')'] "$t(a) or $t( b )".toList = some 5 := by decide +kernel
  exact .beyond found (.past rfl (.past rfl (.past rfl (.past rfl (.start _)))))

/-- A key of which the source shows only a reference has an entry. -/
theorem referred_key_has_entry :
    Table.has "translation:b" (outcome (Search.reportCall referringCall none none) undeclared.task
      (undeclared.holding [] {})).2.keys = true := by
  have ends : Gives undeclared (Search.reportCall referringCall none none) () := by decide +kernel
  have among : "$t(a) or $t( b )" ∈ (undeclared.extraction.added none ["$t(a) or $t( b )"]).map
      undeclared.extraction.bare := by decide +kernel
  have name : KeyName.identity ⟨undeclared.extraction.defaultNamespace, String.ofList (trimChars [' ', 'b', ' ']), none⟩ =
      "translation:b" := by decide +kernel
  rw [← name]
  exact references_of_call ⟨rfl, rfl, rfl⟩ referringCall_reads among referringCall_takesPlain ends (.inl rfl) plainName_b
    reached_b [] {}

/-- A count or a context keeps a call from looking for references. A reference inside another one is not looked for, and
one to a name with the mark of namespaces leads to another namespace. -/
theorem counted_call_adds_no_reference :
    Table.names (keysIn "t('a', '$t(b)', \x7bcount: 1\x7d);") = ["translation:a#plural"] ∧
      Table.names (keysIn "t('a', '$t(b)', \x7bcontext: 'x'\x7d);") = ["translation:a_x"] ∧
      Table.names (keysIn "t('a', '$t(b)');") = ["translation:a", "translation:b"] ∧
      Table.names (keysIn "t('a', '$t($t(b))');") = ["translation:a", "translation:$t(b)"] ∧
      Table.names (searchSource { locales := ["en"], extraction := { namespaceSeparator := some "-" } } "src/a.tsx"
        "t('a', '$t(b-c)');" {}).2.keys = ["translation:a", "b:c"] := by
  refine ⟨?_, ?_, ?_, ?_, ?_⟩
  · decide +kernel
  · decide +kernel
  · decide +kernel
  · decide +kernel
  · decide +kernel

end Examples

end Proofs.References

end Phrasebook
