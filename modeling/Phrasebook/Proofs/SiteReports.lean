import Phrasebook.Proofs.Pruning
import Phrasebook.Proofs.SearchSteps
import Phrasebook.Proofs.Segments

/-! What a call or an element tells of keys. A key that counts as given by the source has a text that stands there, or
is its own text where the site names a default but gives none for this key. -/

namespace Phrasebook

/-- The texts that come with a request for plurals. -/
def PluralRequest.Holds (request : PluralRequest) (text : String) : Prop :=
  (∃ entry ∈ request.forms, entry.2 = text) ∨ request.default = some text ∨ request.callDefault = some text

namespace Proofs.SiteReports

open Catalog SearchFailures SearchSteps Syntax

/-- The options that are given at a site: an object among the arguments of a call, or in the attribute of an
element. -/
inductive IsOptions (site options : Node) : Prop
  | second (argument : (site.callArguments[1]?).bind Node.unwrap = some options) (object : options.kind = .object)
  | third (argument : (site.callArguments[2]?).bind Node.unwrap = some options) (object : options.kind = .object)
  | attribute (value : attributeExpression? (Table.find? "tOptions" (attributeTable site)).join = some options)
      (object : options.kind = .object)

/-- The texts that stand at a site for catalogs: the second argument of a call, the default texts among its options, the
default text of an element, and what is in it. -/
inductive GivesText (extraction : Extraction) (site : Node) (text : String) : Prop
  | argument {second : Node} (argument : (site.callArguments[1]?).bind Node.unwrap = some second)
      (value : second.stringValue? = .ok (some text))
  | option {options : Node} {name : String} (among : IsOptions site options)
      (named : Text.startsWith "defaultValue" name = true)
      (value : options.propertyLiteral? name = .ok (some (.text text)))
  | attribute (value : attributeText? (Table.find? "defaults" (attributeTable site)).join = .ok (some text))
  | content (value : contentText extraction.keptElements site = .ok text) (filled : Text.isBlankText text = false)

/-- Whether a site has options that name a default text. -/
def NamesDefault (site : Node) : Prop :=
  ∃ options, IsOptions site options ∧ ∃ properties, options.objectProperties = .ok properties ∧
    ∃ entry ∈ properties, Text.startsWith "defaultValue" entry.1 = true

/-- Whether a call names several keys, and a text that belongs to the last one. -/
def NamesSeveral (situation : Situation) (site : Node) : Prop :=
  (∃ first named, site.callArguments.head? = some first ∧
    Gives situation (Search.keysOfArgument first) named ∧ 2 ≤ named.1.length) ∧
  ∃ text, GivesText situation.extraction site text

/-- Whether a text is a key itself: the key, with or without its namespace, before something is put in front of it or
behind. -/
def IsKeyItself (key text : String) : Prop :=
  ∃ before front inner behind, key = before ++ inner ++ behind ∧ text = front ++ inner ∧ Text.isBlankText inner = false

/-- Whether a text is there for a key, given by the site or, where the site gives a text to another key or to another
form, the key itself. -/
def SuppliesText (situation : Situation) (site : Node) (key text : String) : Prop :=
  GivesText situation.extraction site text ∨
    IsKeyItself key text ∧ (NamesDefault site ∨ NamesSeveral situation site)

/-- Whether a site has the texts of the forms of a plural that count as given by the source. -/
structure SuppliesForms (situation : Situation) (site : Node) (request : PluralRequest) : Prop where
  given : ∀ text, request.Holds text → GivesText situation.extraction site text
  rest : request.explicitVariants = true → request.default = none → request.callDefault = none →
    NamesDefault site ∨ NamesSeveral situation site

/-- Whether a text is a whole key that a call names: what is left of one of its keys, without a namespace before it and
an ending behind it, with what the binding of the call puts in front. -/
def IsWholeKey (situation : Situation) (site : Node) (text : String) : Prop :=
  ∃ callee first named front inner ending, (site.child? .function).bind Node.memberChain? = some callee ∧
    site.callArguments.head? = some first ∧ Gives situation (Search.keysOfArgument first) named ∧
    front ++ inner ++ ending ∈ named.1 ∧
    Gives situation (Search.withPrefix? (situation.scopes.resolve callee) inner) (some text)

/-- Whether a reference asks for a key with nothing in front of the mark that ends a namespace. It stands in a text that
a site gives, or in a key that a call names. -/
def AskedNameless (situation : Situation) (site : Node) (key : Key) : Prop :=
  ∃ mark text reference, situation.extraction.namespaceSeparator.mark? = some mark ∧
    (GivesText situation.extraction site text ∨ IsWholeKey situation site text) ∧
    reference ∈ Reference.all situation.extraction.nestingStart situation.extraction.nestingEnd
      situation.extraction.nestingOptionsSeparator text ∧
    Text.startsWith mark (String.ofList reference.key) = true ∧ key ∈ reference.keys situation.extraction

/-- Whether a site has the texts of a key that count as given by the source, and the name of its namespace. -/
structure Supplies (situation : Situation) (site : Node) (key : Key) : Prop where
  default : key.explicitDefault = true → ∃ text ∈ key.defaultValue, SuppliesText situation site key.text text
  plural : ∀ request ∈ key.plural, SuppliesForms situation site request
  namespaceName : key.namespaceName = "" →
    situation.extraction.defaultNamespace = "" ∨ AskedNameless situation site key

variable {situation : Situation} {kind : Key → Prop}

section Basic

theorem reports_extraction : Reports situation kind Search.extraction
    fun extraction => extraction = situation.extraction :=
  .silent (.ok _) (fun _ _ => rfl) fun _ same => (Except.ok.inj same).symm

theorem reports_file : Reports situation kind Search.file fun _ => True :=
  .silent (.ok _) (fun _ _ => rfl) fun _ _ => trivial

theorem reports_resolve (name : String) : Reports situation kind (Search.resolve name)
    fun binding => binding = situation.scopes.resolve name :=
  .silent (.ok _) (fun _ _ => rfl) fun _ same => (Except.ok.inj same).symm

theorem reports_texts (expression : Node) : Reports situation kind (Search.texts expression) fun _ => True :=
  .silent (legible_possibleTexts situation.constants false expression) (fun _ _ => rfl) fun _ _ => trivial

theorem reports_warn (text : String) : Reports situation kind (Search.warn text) fun _ => True := by
  have ended : Legible (α := Unit) (.ok ()) := .ok ()
  refine ⟨⟨.ok (), [], ⟨[⟨.warning, text⟩], []⟩⟩, ⟨?_, ended.inner, ?_, List.forall_mem_nil _⟩, ended,
    List.forall_mem_nil _, fun _ _ => trivial⟩
  · intro keys journal
    simp only [Journal.followedBy, List.append_nil]
    rfl
  · intro message member
    rw [List.mem_singleton.mp member]

/-- A key with a text of its own and one for catalogs is seen. -/
theorem yields_add {key : Key} (usable : Usable key) : Yields situation (Search.add key) () [key] := by
  have ended : Legible (α := Unit) (.ok ()) := .ok ()
  have passes : key.checked = .ok key := if_neg (Bool.eq_false_iff.mp usable.1)
  have attempted (findings : Findings) :
      outcome (Search.attempt key.checked) situation.task findings = (.ok key, findings) :=
    congrArg (·, findings) passes
  refine ⟨⟨.ok (), [key], {}⟩, ⟨?_, ended.inner, List.forall_mem_nil _, List.forall_mem_singleton.mpr usable⟩, rfl, rfl⟩
  intro keys journal
  refine (run_bind_ok (attempted _)).trans ?_
  rw [Journal.followedBy_empty]
  rfl

theorem reports_add {key : Key} (usable : Usable key) (fits : kind key) :
    Reports situation kind (Search.add key) fun _ => True := by
  have yields : Yields situation (Search.add key) () [key] := yields_add usable
  obtain ⟨report, does, ended, seen⟩ := yields
  refine ⟨report, does, ended ▸ .ok (), ?_, fun _ _ => trivial⟩
  rw [seen]
  exact List.forall_mem_singleton.mpr fits

theorem filled_append {first second : String} :
    Text.isBlankText (first ++ second) = false ↔ Text.isBlankText first = false ∨ Text.isBlankText second = false := by
  rw [Text.isBlankText, String.toList_append, List.all_append, Bool.and_eq_false_iff]
  rfl

/-- Of two names the first one counts unless it is empty, so both are where the one that counts is. -/
theorem general_of_getD_eq_empty {given : Option String} {general : String}
    (nameless : (given.filter (· ≠ "")).getD general = "") : general = "" := by
  cases counted : given.filter (· ≠ "") with
  | none => rwa [counted] at nameless
  | some name =>
    rw [counted, Option.getD_some] at nameless
    have filled := (Option.filter_eq_some_iff.mp counted).2
    simp [nameless] at filled

end Basic

section Plugins

theorem reports_textsFromHook (plugin : Plugin) (name : String) (hook : ExpressionHook) (expression : Node) :
    Reports situation kind (Search.textsFromHook plugin name hook expression) fun _ => True := by
  unfold Search.textsFromHook
  split
  · exact (reports_warn _).bind fun _ _ => .done _
  · split
    · exact (reports_warn _).bind fun _ _ => .done _
    · split <;> exact .done _

theorem reports_textsFromPlugins (name : String) (hook? : Plugin → Option ExpressionHook) (expression : Node) :
    Reports situation kind (Search.textsFromPlugins name hook? expression) fun _ => True := by
  refine .read ((Reports.mapM fun plugin _ => ?_).bind fun given _ => .done _)
  split
  · exact reports_textsFromHook plugin name _ expression
  · exact .done _

theorem reports_keyTexts (expression : Node) : Reports situation kind (Search.keyTexts expression) fun _ => True := by
  refine (reports_textsFromPlugins _ _ expression).bind fun given _ => ?_
  exact (reports_texts expression).bind fun _ _ => .done _

/-- Where no plugin has a say, the keys that an expression stands for are its texts. -/
theorem yields_keyTexts (unplugged : situation.task.settings.plugins = []) {expression : Node} {texts : List String}
    (known : possibleTexts situation.constants false expression = .ok texts) :
    Yields situation (Search.keyTexts expression) texts [] := by
  have given : Gives situation (Search.textsFromPlugins "extract_keys_from_expression" Plugin.keys expression) [] := by
    have ran : outcome (Search.textsFromPlugins "extract_keys_from_expression" Plugin.keys expression) situation.task
        situation.start = (.ok [], situation.start) := by
      refine (run_bind_ok rfl).trans ?_
      rw [unplugged]
      rfl
    exact congrArg Prod.fst ran
  have read : Gives situation (Search.texts expression) texts := known
  refine (Yields.of_gives (reports_textsFromPlugins _ _ expression) given).after ?_
  exact (Yields.of_gives (reports_texts expression) read).after (.pure _)

theorem reports_contextTexts (expression : Node) :
    Reports situation kind (Search.contextTexts expression) fun _ => True := by
  refine (reports_textsFromPlugins _ _ expression).bind fun given _ => ?_
  exact (reports_texts expression).bind fun _ _ => .done _

end Plugins

section Sightings

variable {site : Node}

theorem IsKeyItself.behind {key text : String} (itself : IsKeyItself key text) (ending : String) :
    IsKeyItself (key ++ ending) text := by
  obtain ⟨before, front, inner, behind, rfl, same, filled⟩ := itself
  exact ⟨before, front, inner, behind ++ ending, String.append_assoc, same, filled⟩

theorem SuppliesText.behind {key text : String} (supplies : SuppliesText situation site key text) (ending : String) :
    SuppliesText situation site (key ++ ending) text :=
  supplies.imp_right fun ⟨itself, named⟩ => ⟨itself.behind ending, named⟩

/-- What a site has to have for the keys of a sighting: a text for each of them, and the name of their namespace. -/
structure Backs (situation : Situation) (site : Node) (sighting : Sighting) : Prop where
  filled : Text.isBlankText sighting.key = false
  general : sighting.namespaceName = "" → situation.extraction.defaultNamespace = ""
  default : sighting.explicit = true → SuppliesText situation site sighting.key sighting.defaultValue
  plural : ∀ request ∈ sighting.plural, SuppliesForms situation site request

theorem usable_of_mem_sighting {extraction : Extraction} {sighting : Sighting} {key : Key}
    (filled : Text.isBlankText sighting.key = false) (member : key ∈ sighting.keys extraction) : Usable key := by
  rcases List.mem_append.mp member with varied | base
  · obtain ⟨context, -, rfl⟩ := List.mem_map.mp varied
    exact ⟨filled_append.mpr (.inl (filled_append.mpr (.inl filled))), rfl⟩
  · split at base
    · obtain rfl := List.mem_singleton.mp base
      exact ⟨filled, rfl⟩
    · cases base

theorem supplies_of_mem_sighting {extraction : Extraction} {sighting : Sighting} {key : Key}
    (backed : Backs situation site sighting) (member : key ∈ sighting.keys extraction) :
    Supplies situation site key := by
  rcases List.mem_append.mp member with varied | base
  · obtain ⟨context, -, rfl⟩ := List.mem_map.mp varied
    refine ⟨fun explicit => ⟨_, rfl, ?_⟩, backed.plural, fun nameless => .inl (backed.general nameless)⟩
    exact ((backed.default explicit).behind extraction.contextSeparator).behind context
  · split at base
    · obtain rfl := List.mem_singleton.mp base
      exact ⟨fun explicit => ⟨_, rfl, backed.default explicit⟩, backed.plural,
        fun nameless => .inl (backed.general nameless)⟩
    · cases base

/-- The key that a reference names is not blank, and its namespace is without a name where nothing is in front of the
mark. -/
theorem of_target? {extraction : Extraction} {reference : Reference} {namespaceName key : String}
    (names : reference.target? extraction = some (namespaceName, key)) :
    Text.isBlankText key = false ∧ (namespaceName = "" → extraction.defaultNamespace = "" ∨
      ∃ mark, extraction.namespaceSeparator.mark? = some mark ∧
        Text.startsWith mark (String.ofList reference.key) = true) := by
  unfold Reference.target? at names
  dsimp only at names
  split at names
  · cases names
  next filled =>
    split at names
    next mark first second rest parts =>
      split at names
      · cases names
      next filledInner =>
        obtain ⟨rfl, rfl⟩ := Prod.mk.inj (Option.some.inj names)
        refine ⟨Bool.eq_false_iff.mpr filledInner, ?_⟩
        rintro rfl
        obtain ⟨other, marked, cut⟩ := Option.map_eq_some_iff.mp parts
        obtain ⟨rfl, same⟩ := Prod.mk.inj cut
        refine .inr ⟨other, marked, Pruning.startsWith_iff.mpr ⟨Text.join other (second :: rest), ?_⟩⟩
        have whole := Segments.join_split other (String.ofList reference.key)
        rw [same, Text.join, String.intercalate_cons_cons, String.empty_append] at whole
        exact whole.symm
    next =>
      obtain ⟨rfl, rfl⟩ := Prod.mk.inj (Option.some.inj names)
      exact ⟨Bool.eq_false_iff.mpr filled, .inl⟩

/-- The keys that a reference asks for: their text is made up from the key, and any request for plurals is empty. -/
theorem of_mem_reference {extraction : Extraction} {reference : Reference} {key : Key}
    (member : key ∈ reference.keys extraction) :
    Usable key ∧ key.explicitDefault = false ∧ (∀ request ∈ key.plural, request = {}) ∧
      (key.namespaceName = "" → extraction.defaultNamespace = "" ∨
        ∃ mark, extraction.namespaceSeparator.mark? = some mark ∧
          Text.startsWith mark (String.ofList reference.key) = true) := by
  have unasked (request : PluralRequest) (impossible : request ∈ (none : Option PluralRequest)) : request = {} := by
    cases impossible
  unfold Reference.keys at member
  split at member
  · cases member
  next namespaceName name names =>
    obtain ⟨filled, named⟩ := of_target? names
    have within (context : String) : Text.isBlankText (name ++ extraction.contextSeparator ++ context) = false :=
      filled_append.mpr (.inl (filled_append.mpr (.inl filled)))
    dsimp only at member
    split at member
    · split at member
      · obtain rfl := List.mem_singleton.mp member
        exact ⟨⟨filled, rfl⟩, rfl, unasked, named⟩
      · obtain rfl := List.mem_singleton.mp member
        refine ⟨⟨?_, rfl⟩, rfl, fun request same => (Option.some.inj same).symm, named⟩
        dsimp only
        split
        · split
          · exact filled
          · exact within _
        · exact filled
    · rcases List.mem_cons.mp member with rfl | varied
      · exact ⟨⟨filled, rfl⟩, rfl, unasked, named⟩
      · split at varied
        · split at varied
          · cases varied
          · obtain rfl := List.mem_singleton.mp varied
            exact ⟨⟨within _, rfl⟩, rfl, unasked, named⟩
        · cases varied

theorem reports_report {sighting : Sighting} (backed : Backs situation site sighting) :
    Reports situation (Supplies situation site) (Search.report sighting) fun _ => True := by
  refine reports_extraction.bind fun extraction _ => .forM fun key member => ?_
  exact reports_add (usable_of_mem_sighting backed.filled member) (supplies_of_mem_sighting backed member)

theorem reports_reportReferences {text : String}
    (stands : GivesText situation.extraction site text ∨ IsWholeKey situation site text) :
    Reports situation (Supplies situation site) (Search.reportReferences text) fun _ => True := by
  refine reports_extraction.bind fun extraction same => ?_
  subst same
  refine .forM fun reference inside => .forM fun key member => ?_
  obtain ⟨usable, plain, empty, named⟩ := of_mem_reference member
  refine reports_add usable ⟨fun explicit => ?_, fun request asked => ?_, fun nameless => ?_⟩
  · cases plain.symm.trans explicit
  · obtain rfl := empty request asked
    refine ⟨?_, fun explicit => ?_⟩
    · rintro text (⟨entry, inside, -⟩ | given | given)
      · cases inside
      · cases given
      · cases given
    · cases explicit
  · refine (named nameless).imp_right ?_
    rintro ⟨mark, marked, starts⟩
    exact ⟨mark, text, reference, marked, stands, inside, starts, member⟩

theorem reports_contextsOf (expression : Option Node) :
    Reports situation kind (Search.contextsOf expression) fun _ => True := by
  unfold Search.contextsOf
  split
  · exact .done _
  next node _ =>
    extract_lets further
    have reports : ∀ isStatic, Reports situation kind (further isStatic) fun _ => True := by
      intro isStatic
      dsimp only [further]
      split
      · refine (Reports.attempt (legible_literal? node)).bind fun value _ => ?_
        split <;> exact .done _
      · exact (reports_contextTexts node).bind fun _ _ => .done _
    clear_value further
    split
    all_goals try exact (Reports.done _).bind fun _ _ => reports _
    exact (Reports.attempt (legible_stringValue? node)).bind fun _ _ => (Reports.done _).bind fun _ _ => reports _

/-- The text that a binding puts in front of keys leaves the key at its end. -/
theorem reports_withPrefix? (binding : Option Binding) (key : String) :
    Reports situation kind (Search.withPrefix? binding key) fun found =>
      ∀ whole ∈ found, ∃ before, whole = before ++ key := by
  have same (whole : String) (known : whole ∈ some key) : ∃ before, whole = before ++ key :=
    ⟨"", (Option.some.inj known).symm.trans String.empty_append.symm⟩
  unfold Search.withPrefix?
  split
  · exact .pure same
  next start _ =>
    refine reports_extraction.bind fun extraction _ => ?_
    split
    · exact .pure fun whole known => ⟨start, (Option.some.inj known).symm⟩
    next mark _ =>
      extract_lets whole
      split
      · exact (reports_warn _).bind fun _ _ => .pure fun _ impossible => by cases impossible
      · refine .pure fun found known => ?_
        obtain rfl := Option.some.inj known
        dsimp only [whole]
        split
        · exact ⟨start, rfl⟩
        · exact ⟨start ++ mark, rfl⟩

theorem startsWith_of_dropStart? {mark separator ending text rest : String}
    (dropped : Text.dropStart? (mark ++ separator ++ ending) text = some rest) : Text.startsWith mark text = true := by
  obtain ⟨behind, found, -⟩ := Option.map_eq_some_iff.mp dropped
  refine Pruning.startsWith_iff.mpr ⟨separator ++ ending ++ String.ofList behind, ?_⟩
  rw [← String.toList_inj, Text.eq_append_of_after? found]
  simp

/-- The forms that options give are among their default texts. -/
theorem reports_pluralForms (options : Option Node) (ordinal : Bool)
    (among : ∀ node ∈ options, IsOptions site node) :
    Reports situation kind (Search.pluralForms options ordinal) fun forms =>
      ∀ entry ∈ forms, GivesText situation.extraction site entry.2 := by
  unfold Search.pluralForms
  split
  · exact .pure (List.forall_mem_nil _)
  next options =>
    refine reports_extraction.bind fun _ _ => ?_
    refine (Reports.attempt (legible_objectProperties options)).bind fun properties _ => ?_
    refine .foldlM (List.forall_mem_nil _) ?_
    rintro forms given ⟨name, category⟩ named
    refine (Reports.attempt (legible_propertyLiteral? options name)).bind fun value held => ?_
    split
    next text =>
      refine .pure fun entry member => ?_
      rcases Table.mem_put member with rfl | old
      · obtain ⟨⟨found, _⟩, -, parts⟩ := List.mem_filterMap.mp named
        obtain ⟨ending, dropped, kept⟩ := Option.bind_eq_some_iff.mp parts
        split at kept
        · obtain ⟨rfl, -⟩ := Prod.mk.inj (Option.some.inj kept)
          exact .option (among options rfl) (startsWith_of_dropStart? dropped) held
        · cases kept
      · exact given entry old
    next => exact .pure given

theorem reports_givesDefaults (options : Option Node) (among : ∀ node ∈ options, IsOptions site node) :
    Reports situation kind (Search.givesDefaults options) fun gives => gives = true → NamesDefault site := by
  unfold Search.givesDefaults
  split
  · exact .pure fun impossible => by cases impossible
  next options =>
    refine (Reports.attempt (legible_objectProperties options)).bind fun properties held => .pure fun named => ?_
    exact ⟨options, among options rfl, properties, held, List.any_eq_true.mp named⟩

end Sightings

section Calls

variable {site : Node}

theorem reports_keysOfArgument (argument : Node) :
    Reports situation kind (Search.keysOfArgument argument) fun _ => True := by
  unfold Search.keysOfArgument
  split
  · exact .done _
  next argument _ =>
    split
    · refine reports_extraction.bind fun extraction _ => ?_
      exact (Reports.attempt (legible_selectedKey? extraction argument)).bind fun _ _ => .done _
    · split
      · exact (Reports.mapM fun part _ => reports_keyTexts part).bind fun _ _ => .done _
      · exact (reports_keyTexts argument).bind fun _ _ => .done _

/-- A default text among the arguments of a call is the second of them, and options are the second or the third. -/
theorem reports_defaultAndOptions :
    Reports situation kind (Search.defaultAndOptions site.callArguments) fun found =>
      (∀ text ∈ found.1, GivesText situation.extraction site text) ∧ ∀ options ∈ found.2, IsOptions site options := by
  unfold Search.defaultAndOptions
  extract_lets further
  have reports : ∀ found : Option String × Option Node,
      ((∀ text ∈ found.1, GivesText situation.extraction site text) ∧ ∀ options ∈ found.2, IsOptions site options) →
      Reports situation kind (further found) fun found =>
        (∀ text ∈ found.1, GivesText situation.extraction site text) ∧ ∀ options ∈ found.2, IsOptions site options := by
    rintro ⟨text, options⟩ ⟨given, among⟩
    dsimp only [further]
    split
    next third known =>
      refine .pure ⟨given, fun node held => ?_⟩
      split at held
      next object =>
        obtain rfl := Option.some.inj held
        exact .third known object
      next => exact among node held
    next => exact .pure ⟨given, among⟩
  clear_value further
  split
  · exact (Reports.pure ⟨by simp, by simp⟩).bind reports
  next second known =>
    have text {given : Option String} (value : second.stringValue? = .ok given) :
        ∀ text ∈ given, GivesText situation.extraction site text :=
      fun text held => .argument known (held ▸ value)
    split
    next object =>
      refine (Reports.pure ⟨by simp, fun options held => ?_⟩).bind reports
      obtain rfl := Option.some.inj held
      exact .second known object
    next =>
      exact (Reports.attempt (legible_stringValue? second)).bind fun given value =>
        (Reports.pure ⟨text value, by simp⟩).bind reports
    next =>
      exact (Reports.attempt (legible_stringValue? second)).bind fun given value =>
        (Reports.pure ⟨text value, by simp⟩).bind reports
    next => exact (Reports.pure ⟨by simp, by simp⟩).bind reports

theorem reports_namespaceOfOptions (options : Option Node) :
    Reports situation kind (Search.namespaceOfOptions options) fun _ => True := by
  unfold Search.namespaceOfOptions
  split
  · exact .done _
  · refine (Reports.attempt (legible_property _ "ns")).bind fun value _ => ?_
    split
    · exact .done _
    · split
      · split
        · exact .done _
        · exact (Reports.attempt (legible_stringValue? _)).mono fun _ _ => trivial
      · exact (Reports.attempt (legible_stringValue? _)).mono fun _ _ => trivial

theorem exists_front {separator : Option String} {key mark first second : String} {rest : List String}
    (parts : (separator.map fun mark => (mark, Text.split mark key)) = some (mark, first :: second :: rest)) :
    ∃ front, key = front ++ Text.join mark (second :: rest) := by
  obtain ⟨other, -, cut⟩ := Option.map_eq_some_iff.mp parts
  obtain ⟨rfl, same⟩ := Prod.mk.inj cut
  refine ⟨first ++ other, ?_⟩
  rw [Text.join, ← String.intercalate_cons_cons, ← same]
  exact (Segments.join_split other key).symm

/-- What is left of a key without its namespace is at its end, and is not blank; the namespace has a name where the
general one has. -/
theorem reports_splitNamespace {key : String} (filled : Text.isBlankText key = false) (options : Option Node)
    (binding : Option Binding) :
    Reports situation kind (Search.splitNamespace key options binding) fun found =>
      ∀ parts ∈ found, Text.isBlankText parts.2 = false ∧ (∃ front, key = front ++ parts.2) ∧
        (parts.1 = "" → situation.extraction.defaultNamespace = "") := by
  refine reports_extraction.bind fun extraction same => ?_
  subst same
  extract_lets filled? general
  have named : general = "" → situation.extraction.defaultNamespace = "" := general_of_getD_eq_empty
  refine (reports_namespaceOfOptions options).bind fun given _ => ?_
  have whole {name : String} (named : name = "" → situation.extraction.defaultNamespace = "") :
      ∀ parts ∈ some (name, key), Text.isBlankText parts.2 = false ∧ (∃ front, key = front ++ parts.2) ∧
        (parts.1 = "" → situation.extraction.defaultNamespace = "") := by
    rintro parts held
    obtain rfl := Option.some.inj held
    exact ⟨filled, ⟨"", String.empty_append.symm⟩, named⟩
  split
  next name counts =>
    refine .pure (whole fun nameless => ?_)
    have some := (Option.filter_eq_some_iff.mp counts).2
    simp [nameless] at some
  · split
    next mark first second rest parts =>
      extract_lets inner
      split
      · exact (reports_warn _).bind fun _ _ => .pure (by simp)
      next filledInner =>
        refine .pure fun found held => ?_
        obtain rfl := Option.some.inj held
        refine ⟨Bool.eq_false_iff.mpr filledInner, exists_front parts, fun nameless => ?_⟩
        exact named (general_of_getD_eq_empty nameless)
    · exact .pure (whole named)

theorem reports_optionValue (options : Option Node) (name : String) :
    Reports situation kind (Search.optionValue options name) fun value =>
      ∀ literal ∈ value, ∃ node ∈ options, node.propertyLiteral? name = .ok (some literal) := by
  unfold Search.optionValue
  split
  · exact .pure (by simp)
  next options =>
    refine (Reports.attempt (legible_propertyLiteral? options name)).mono fun value same literal held => ?_
    exact ⟨options, rfl, held ▸ same⟩

/-- The text of a key of a call is given by the call, or it is the key itself, as it is written or without its
namespace. -/
theorem suppliesText_of_call {default : Option String} {hasDefaultOptions isLast : Bool} {before key unstated : String}
    (filled : Text.isBlankText key = false) (written : ∃ front, unstated = front ++ key)
    (given : ∀ text ∈ default, GivesText situation.extraction site text)
    (named : hasDefaultOptions = true → NamesDefault site)
    (several : isLast = false → (∃ text, GivesText situation.extraction site text) →
      NamesSeveral situation site)
    (explicit : (default.isSome || hasDefaultOptions) = true) :
    SuppliesText situation site (before ++ key) (if isLast then default.getD unstated else key) := by
  have itself {text : String} (ends : ∃ front, text = front ++ key) : IsKeyItself (before ++ key) text := by
    obtain ⟨front, rfl⟩ := ends
    exact ⟨before, front, key, "", String.append_empty.symm, rfl, filled⟩
  rcases Bool.or_eq_true_iff.mp explicit with there | options
  · obtain ⟨text, rfl⟩ := Option.isSome_iff_exists.mp there
    cases isLast with
    | true => exact .inl (given text rfl)
    | false => exact .inr ⟨itself ⟨"", String.empty_append.symm⟩, .inr (several rfl ⟨text, given text rfl⟩)⟩
  · cases isLast with
    | true =>
      cases default with
      | some text => exact .inl (given text rfl)
      | none => exact .inr ⟨itself written, .inl (named options)⟩
    | false => exact .inr ⟨itself ⟨"", String.empty_append.symm⟩, .inl (named options)⟩

theorem suppliesForms_of_call {request : PluralRequest} {extraction : Extraction} {called : Option String}
    {hasDefaultOptions isLast : Bool}
    (inOptions : ∀ entry ∈ request.forms, GivesText situation.extraction site entry.2)
    (optional : ∀ text ∈ request.default, GivesText situation.extraction site text)
    (argument : ∀ text ∈ called, GivesText situation.extraction site text)
    (last : request.callDefault = if isLast then called else none)
    (explicit : request.explicitVariants =
      (hasDefaultOptions || (request.default <|> called).any fun text => !hasCountPlace extraction text))
    (named : hasDefaultOptions = true → NamesDefault site)
    (several : isLast = false → (∃ text, GivesText situation.extraction site text) →
      NamesSeveral situation site) : SuppliesForms situation site request where
  given := by
    rintro text (⟨entry, inside, rfl⟩ | given | given)
    · exact inOptions entry inside
    · exact optional text given
    · rw [last] at given
      split at given
      · exact argument text given
      · cases given
  rest := by
    intro stated unstated uncalled
    rw [explicit, unstated] at stated
    rcases Bool.or_eq_true_iff.mp stated with options | there
    · exact .inl (named options)
    · cases isLast with
      | true =>
        rw [last, if_pos rfl] at uncalled
        rw [uncalled] at there
        cases there
      | false =>
        obtain ⟨text, held, -⟩ := (Option.any_eq_true _ _).mp there
        exact .inr (several rfl ⟨text, argument text held⟩)

theorem given_of_either {first second : Option String} {extraction : Extraction}
    (one : ∀ text ∈ first, GivesText extraction site text) (two : ∀ text ∈ second, GivesText extraction site text) :
    ∀ text ∈ first <|> second, GivesText extraction site text := by
  intro text held
  cases first with
  | none => exact two text held
  | some other => exact one text held

/-- A key that a call names is seen with the texts that the call gives. Only the last key is seen with the text that
stands by itself; the others are their own texts. -/
theorem reports_reportCallKey (call : Search.CallSetting) (optionDefault : Option String)
    {hasDefaultOptions isLast : Bool} {written : String} (filled : Text.isBlankText written = false)
    (among : ∀ options ∈ call.options, IsOptions site options)
    (called : ∀ text ∈ call.callDefault, GivesText situation.extraction site text)
    (optional : ∀ text ∈ optionDefault, GivesText situation.extraction site text)
    (named : hasDefaultOptions = true → NamesDefault site)
    (several : isLast = false → (∃ text, GivesText situation.extraction site text) →
      NamesSeveral situation site)
    (isWhole : ∀ front inner text, written = front ++ inner →
      Gives situation (Search.withPrefix? call.binding inner) (some text) → IsWholeKey situation site text) :
    Reports situation (Supplies situation site)
      (Search.reportCallKey call optionDefault hasDefaultOptions isLast written) fun _ => True := by
  refine reports_extraction.bind fun extraction _ => ?_
  extract_lets options default explicit
  refine (reports_splitNamespace filled options call.binding).bind fun found inside => ?_
  split
  · exact .done _
  next namespaceName key =>
  obtain ⟨filledKey, ⟨front, whole⟩, general⟩ := inside _ rfl
  refine (reports_withPrefix? call.binding _).given.bind fun found known => ?_
  obtain ⟨behind, gives⟩ := known
  split
  · exact .done _
  next wholeKey =>
  have looked : IsWholeKey situation site wholeKey := isWhole front key wholeKey whole gives
  obtain ⟨before, rfl⟩ := behind _ rfl
  extract_lets unstated withContext
  have known : ∀ node ∈ options, IsOptions site node := among
  have supplied : (default.isSome || hasDefaultOptions) = true →
      SuppliesText situation site (before ++ key) (if isLast then default.getD unstated else key) := by
    refine suppliesText_of_call filledKey ?_ (given_of_either optional called) named several
    dsimp only [unstated]
    rw [whole]
    split
    · split
      · exact ⟨front, rfl⟩
      · exact ⟨"", String.empty_append.symm⟩
    · exact ⟨"", String.empty_append.symm⟩
  have forms (ordinal : Bool) (forms : List (String × String))
      (inOptions : ∀ entry ∈ forms, GivesText situation.extraction site entry.2) :
      SuppliesForms situation site
        { ordinal, forms, default := optionDefault, callDefault := if isLast then call.callDefault else none,
          explicitVariants := explicit } :=
    suppliesForms_of_call inOptions optional called rfl rfl named several
  suffices reports : ∀ found, Reports situation (Supplies situation site) (withContext found) fun _ => True by
    clear_value withContext options
    split
    · exact (Reports.done _).bind fun _ _ => reports _
    · refine (Reports.attempt (legible_property _ _)).bind fun context _ => ?_
      refine (Reports.attempt (legible_property _ _)).bind fun count _ => ?_
      exact (Reports.done _).bind fun _ _ => reports _
  rintro ⟨contextNode, hasCount⟩
  dsimp -zeta only [withContext]
  refine (reports_contextsOf contextNode).bind ?_
  rintro ⟨contexts, moreContexts⟩ -
  dsimp -zeta only
  extract_lets withPlural
  suffices reports : ∀ plural, (∀ request ∈ plural, SuppliesForms situation site request) →
      Reports situation (Supplies situation site) (withPlural plural) fun _ => True by
    clear_value withPlural
    split
    · refine (reports_optionValue options _).bind fun ordinal _ => ?_
      refine (reports_pluralForms options _ known).bind fun given inOptions => ?_
      refine (Reports.pure fun request held => ?_).bind reports
      obtain rfl := Option.some.inj held
      exact forms _ given inOptions
    · exact (Reports.pure (by simp)).bind reports
  intro plural backed
  dsimp -zeta only [withPlural]
  extract_lets withObject
  suffices reports : ∀ isOpaque, Reports situation (Supplies situation site) (withObject isOpaque) fun _ => True by
    clear_value withObject
    split
    · exact (Reports.done true).bind fun _ _ => reports _
    · exact (reports_optionValue options _).bind fun _ _ => (Reports.done _).bind fun _ _ => reports _
  intro isOpaque
  refine (reports_report ?_).bind fun _ _ => .ite (fun _ => ?_) fun _ => .done _
  · exact ⟨filled_append.mpr (.inr filledKey), general, supplied, backed⟩
  · refine (reports_reportReferences (.inr looked)).bind fun _ _ => ?_
    exact .forMOption fun text held => reports_reportReferences (.inl (given_of_either optional called text held))

theorem exists_getD_dropEnd? (mark text : String) : ∃ ending, (Text.dropEnd? mark text).getD text ++ ending = text := by
  cases dropped : Text.dropEnd? mark text with
  | none => exact ⟨"", String.append_empty⟩
  | some before =>
    obtain ⟨rest, found, rfl⟩ := Option.map_eq_some_iff.mp dropped
    have whole := congrArg List.reverse (Text.eq_append_of_after? found)
    refine ⟨mark, ?_⟩
    rw [Option.getD_some, ← String.toList_inj]
    simpa using whole.symm

theorem reports_reportCall (call : Node) (skips : Option (String → Bool)) (place : Option (Nat × Nat)) :
    Reports situation (Supplies situation call) (Search.reportCall call skips place) fun _ => True := by
  refine reports_extraction.bind fun extraction _ => ?_
  split
  · exact .done _
  next callee chain =>
  refine (reports_resolve callee).bind fun binding resolved => ?_
  split
  · split
    · exact .done _
    next first further arguments =>
    refine (reports_keysOfArgument first).given.bind ?_
    rintro ⟨named, isSelector⟩ ⟨-, gives⟩
    dsimp -zeta only
    extract_lets ending ordinalByKey nonblank unmarked keys
    have filled : ∀ key ∈ keys, Text.isBlankText key = false ∧ ∃ ending, key ++ ending ∈ named := by
      have before : ∀ key ∈ unmarked, Text.isBlankText key = false ∧ ∃ ending, key ++ ending ∈ named := by
        intro key member
        obtain ⟨cut, filled⟩ := List.mem_filter.mp member
        obtain ⟨written, inside, rfl⟩ := List.mem_map.mp cut
        obtain ⟨behind, whole⟩ := exists_getD_dropEnd? ending written
        refine ⟨by simpa using filled, behind, ?_⟩
        rw [whole]
        exact (List.mem_filter.mp inside).1
      intro key member
      dsimp only [keys] at member
      split at member
      · exact before key (List.mem_filter.mp member).1
      · exact before key member
    have fewer : keys.length ≤ named.length := by
      have before : unmarked.length ≤ named.length := by
        refine (List.length_filter_le _ _).trans ?_
        rw [List.length_map]
        exact List.length_filter_le _ _
      dsimp only [keys]
      split
      · exact (List.length_filter_le _ _).trans before
      · exact before
    clear_value keys
    refine .ite (fun _ => ?_) fun _ => .done _
    rw [← arguments]
    refine reports_defaultAndOptions.bind ?_
    rintro ⟨callDefault, options⟩ ⟨called, among⟩
    refine (reports_optionValue options _).bind fun literal inOptions => ?_
    extract_lets optionDefault
    have optional : ∀ text ∈ optionDefault, GivesText situation.extraction call text := by
      intro text held
      dsimp only [optionDefault] at held
      split at held
      next value known =>
        obtain rfl := Option.some.inj held
        obtain ⟨node, given, value⟩ := inOptions _ rfl
        exact .option (among node given) (by decide +kernel) value
      next => cases held
    clear_value optionDefault
    refine (reports_givesDefaults options among).bind fun hasDefaultOptions inside => ?_
    dsimp -zeta only
    refine reports_file.bind fun file _ => ?_
    refine (Reports.attempt (legible_location _ _ _)).bind fun location _ => ?_
    refine .forM ?_
    rintro ⟨key, index⟩ member
    have before := (List.mem_zipIdx' member).1
    obtain ⟨filledKey, behind, written⟩ := filled key (List.fst_mem_of_mem_zipIdx member)
    have head : call.callArguments.head? = some first := by rw [arguments, List.head?_cons]
    refine reports_reportCallKey ⟨binding, callDefault, options, ordinalByKey, isSelector, location⟩ optionDefault
      filledKey among called optional inside ?_ ?_
    · rintro other given
      refine ⟨⟨first, _, head, gives, ?_⟩, given⟩
      have different := ne_of_beq_false other
      dsimp only
      omega
    · rintro front inner text rfl whole
      subst resolved
      exact ⟨callee, first, _, front, inner, behind, chain, head, gives, written, whole⟩
  · exact .done _

end Calls

section Elements

variable {site : Node}

theorem reports_keysOfAttribute (value : Option Node) (namespaceName : Option String) :
    Reports situation kind (Search.keysOfAttribute value namespaceName) fun _ => True := by
  unfold Search.keysOfAttribute
  split
  · exact .done _
  · split
    · refine reports_extraction.bind fun extraction _ => ?_
      split <;> exact .done _
    · split
      · exact reports_keyTexts _
      · exact .done _

/-- What an element reports for one of its keys. Something may be put in front of the key or taken off it, but not where
the element gives a namespace beside it. -/
structure Sighted (situation : Situation) (site : Node) (element : Search.ElementSetting) (written : String)
    (sighting : Sighting) : Prop where
  filled : Text.isBlankText sighting.key = false
  verbatim : element.namespaceName.isSome = true → sighting.key = written
  general : sighting.namespaceName = "" → situation.extraction.defaultNamespace = ""
  text : sighting.defaultValue = element.defaultText.getD sighting.key
  explicit : sighting.explicit = element.explicit
  contexts : sighting.contexts = element.contexts
  plural : ∀ request ∈ sighting.plural, request.default = element.defaultText ∧ request.callDefault = none ∧
    request.explicitVariants = element.explicit ∧ ∀ entry ∈ request.forms, GivesText situation.extraction site entry.2

/-- A property that carries over what is read first holds of the report of a key of an element where it holds of a step
that does nothing and of each sighting. -/
theorem opens_reportElementKey {holds : Search Unit → Prop} (carries : Carries situation holds)
    {element : Search.ElementSetting} {written : String} (among : ∀ options ∈ element.options, IsOptions site options)
    (nothing : holds (pure ()))
    (sighted : ∀ sighting, Sighted situation site element written sighting → holds (Search.report sighting)) :
    holds (Search.reportElementKey element written) := by
  refine carries.behind reports_extraction fun extraction same => ?_
  subst same
  split
  next given? key parts =>
    have verbatim : element.namespaceName.isSome = true → key = written := by
      intro own
      obtain ⟨name, named⟩ := Option.isSome_iff_exists.mp own
      rw [named] at parts
      exact (Prod.mk.inj parts).2.symm
    split
    next filled =>
      replace filled : Text.isBlankText key = false := by simpa using filled
      extract_lets further
      suffices here : ∀ found, Text.isBlankText found.2 = false →
          (element.namespaceName.isSome = true → found.2 = written) → holds (further found) by
        clear_value further
        split
        next unnamed =>
          refine carries.behind (reports_withPrefix? _ _) fun found behind => ?_
          refine carries.yields (.pure _) fun _ same => same ▸ here _ ?_ fun own => ?_
          · cases found with
            | none => exact filled
            | some whole =>
              obtain ⟨before, rfl⟩ := behind whole rfl
              exact filled_append.mpr (.inr filled)
          · rw [unnamed] at own
            cases own
        next => exact carries.yields (.pure _) fun _ same => same ▸ here _ filled verbatim
      rintro ⟨given?, whole⟩ filled verbatim
      dsimp -zeta only [further]
      extract_lets withPlural
      suffices here : ∀ plural : Option PluralRequest, (∀ request ∈ plural, request.default = element.defaultText ∧
          request.callDefault = none ∧ request.explicitVariants = element.explicit ∧
          ∀ entry ∈ request.forms, GivesText situation.extraction site entry.2) → holds (withPlural plural) by
        clear_value withPlural
        split
        · refine carries.behind (reports_pluralForms _ _ among) fun forms inOptions => ?_
          refine carries.yields (.pure _) fun _ same => same ▸ here _ fun request held => ?_
          obtain rfl := Option.some.inj held
          exact ⟨rfl, rfl, rfl, inOptions⟩
        · exact carries.yields (.pure _) fun _ same => same ▸ here none fun _ impossible => by cases impossible
      intro plural asked
      exact sighted _ ⟨filled, verbatim, general_of_getD_eq_empty, rfl, rfl, rfl, asked⟩
    next => exact nothing

/-- A key that an element names is seen with the texts that the element gives. -/
theorem reports_reportElementKey (element : Search.ElementSetting) (written : String)
    (among : ∀ options ∈ element.options, IsOptions site options)
    (given : ∀ text ∈ element.defaultText, GivesText situation.extraction site text)
    (named : element.explicit = true → element.defaultText = none → NamesDefault site) :
    Reports situation (Supplies situation site) (Search.reportElementKey element written) fun _ => True := by
  refine opens_reportElementKey .reports among (.done _) fun sighting sighted => ?_
  refine reports_report ⟨sighted.filled, sighted.general, fun explicit => ?_, ?_⟩
  · rw [sighted.explicit] at explicit
    rw [sighted.text]
    cases text : element.defaultText with
    | some text => exact .inl (given _ text)
    | none =>
      have itself : sighting.key = "" ++ sighting.key ++ "" := by simp
      exact .inr ⟨⟨"", "", sighting.key, "", itself, by simp, sighted.filled⟩, .inl (named explicit text)⟩
  · intro request held
    obtain ⟨default, called, explicit, forms⟩ := sighted.plural request held
    refine ⟨?_, fun stated unstated _ => .inl (named (explicit ▸ stated) (default ▸ unstated))⟩
    rintro text (⟨entry, inside, rfl⟩ | held | held)
    · exact forms entry inside
    · exact given text (default ▸ held)
    · cases called.symm.trans held

theorem reports_reportTranslated (element : Node) :
    Reports situation (Supplies situation element) (Search.reportTranslated element) fun _ => True := by
  refine reports_extraction.bind fun extraction same => ?_
  subst same
  extract_lets attributes valueOf options withNamespace
  have among : ∀ node ∈ options, IsOptions element node := by
    intro node held
    obtain ⟨value, object⟩ := Option.filter_eq_some_iff.mp held
    exact .attribute value (of_decide_eq_true object)
  suffices reports : ∀ namespaceName, Reports situation (Supplies situation element) (withNamespace namespaceName)
      fun _ => True by
    clear_value withNamespace options
    refine (Reports.attempt (legible_attributeText? _)).bind fun name _ => ?_
    split
    · refine (Reports.attempt (legible_propertyLiteral? _ _)).bind fun value _ => ?_
      split
      · exact (Reports.done _).bind fun _ _ => reports _
      · exact (Reports.done _).bind fun _ _ => reports _
    · exact (Reports.done _).bind fun _ _ => reports _
  intro namespaceName
  dsimp -zeta only [withNamespace]
  extract_lets withCount
  suffices reports : ∀ hasCount, Reports situation (Supplies situation element) (withCount hasCount) fun _ => True by
    clear_value withCount
    split
    · exact (Reports.done true).bind fun _ _ => reports _
    · split
      · exact (Reports.attempt (legible_property _ _)).bind fun _ _ => (Reports.done _).bind fun _ _ => reports _
      · exact (Reports.done false).bind fun _ _ => reports _
  intro hasCount
  dsimp -zeta only [withCount]
  extract_lets withContext
  suffices reports : ∀ contextNode, Reports situation (Supplies situation element) (withContext contextNode)
      fun _ => True by
    clear_value withContext options
    split
    · exact (Reports.done _).bind fun _ _ => reports _
    · split
      · exact (Reports.attempt (legible_property _ _)).bind fun _ _ => reports _
      · exact (Reports.done none).bind fun _ _ => reports _
  intro contextNode
  refine (Reports.attempt (legible_contentText _ _)).bind fun content inside => ?_
  refine (Reports.attempt (legible_attributeText? _)).bind fun defaults stated => ?_
  extract_lets withKeys
  suffices reports : ∀ named, Reports situation (Supplies situation element) (withKeys named) fun _ => True by
    clear_value withKeys
    split
    · exact (reports_keysOfAttribute _ _).bind fun _ _ => reports _
    · exact (Reports.done _).bind fun _ _ => reports _
  intro named
  dsimp -zeta only [withKeys]
  extract_lets keys withExplicit
  suffices reports : ∀ explicit, (explicit = true → defaults = none → NamesDefault element) →
      Reports situation (Supplies situation element) (withExplicit explicit) fun _ => True by
    clear_value withExplicit
    refine .ite (fun _ => ?_) fun _ => .done _
    split
    next there => exact (Reports.pure fun _ missing => by rw [missing] at there; cases there).bind reports
    next =>
      refine (reports_givesDefaults options among).bind fun _ inside => ?_
      exact reports _ fun explicit _ => inside explicit
  intro explicit named
  dsimp -zeta only [withExplicit]
  extract_lets withBinding
  suffices reports : ∀ binding, Reports situation (Supplies situation element) (withBinding binding)
      fun _ => True by
    clear_value withBinding
    split
    · split
      · exact (reports_resolve _).bind fun _ _ => reports _
      · exact (Reports.done none).bind fun _ _ => reports _
    · exact (Reports.done none).bind fun _ _ => reports _
  intro binding
  refine (reports_contextsOf contextNode).bind ?_
  rintro ⟨contexts, moreContexts⟩ -
  refine reports_file.bind fun file _ => ?_
  refine (Reports.attempt (legible_location _ _ _)).bind fun location _ => ?_
  refine .forM fun key _ => reports_reportElementKey _ key among ?_ ?_
  · refine given_of_either (fun text held => .attribute (held ▸ stated)) fun text held => ?_
    split at held
    · cases held
    next filled =>
      obtain rfl := Option.some.inj held
      exact .content inside (Bool.eq_false_iff.mpr filled)
  · intro explicit unstated
    refine named explicit ?_
    cases defaults with
    | none => rfl
    | some text => cases unstated

/-- A failure inside an element is told and does not end the search. -/
theorem reports_reportElement (element : Node) :
    Reports situation (Supplies situation element) (Search.reportElement element) fun _ => True := by
  refine reports_extraction.bind fun extraction _ => .ite (fun _ => ?_) fun _ => .done _
  refine (reports_reportTranslated element).tryCatch fun failure => ?_
  exact reports_file.bind fun file _ => reports_warn _

end Elements

/-- A place in a source where keys are asked for: a call or an element, and the step that reports its keys. -/
structure Site where
  node : Node
  report : Search Unit

/-- The sites at a node: the call or the element that it is, or the calls in the comment that it is. -/
inductive SiteAt (extraction : Extraction) (node : Node) : Site → Prop
  | call (call : node.kind = .callExpression) : SiteAt extraction node ⟨node, Search.reportCall node none none⟩
  | element (element : node.kind = .jsxElement ∨ node.kind = .jsxSelfClosingElement) :
      SiteAt extraction node ⟨node, Search.reportElement node⟩
  | hint {place call} (comment : node.kind = .comment) (reads : extraction.readComments = true)
      (inside : (place, call) ∈ hints extraction.functions node.text) :
      SiteAt extraction node ⟨call, Search.reportCall call (some (Pattern.coversKey extraction.preservePatterns))
        (some (hintPlace node place))⟩

/-- Whether a key is seen at a site of a node, with the texts that the site supplies. -/
def ShownAt (situation : Situation) (node : Node) (key : Key) : Prop :=
  ∃ site, SiteAt situation.extraction node site ∧ Shows situation site.report key ∧ Supplies situation site.node key

theorem reports_site {node : Node} {site : Site} (there : SiteAt situation.extraction node site)
    (reports : Reports situation (Supplies situation site.node) site.report fun _ => True) :
    Reports situation (ShownAt situation node) site.report fun _ => True :=
  reports.shown.widen fun _ ⟨shows, supplies⟩ => ⟨site, there, shows, supplies⟩

theorem reports_reportNode (node : Node) :
    Reports situation (ShownAt situation node) (Search.reportNode node) fun _ => True := by
  have element (there : node.kind = .jsxElement ∨ node.kind = .jsxSelfClosingElement) :
      Reports situation (ShownAt situation node) (Search.reportElement node) fun _ => True :=
    reports_site (.element there) (reports_reportElement node)
  unfold Search.reportNode
  split
  next call => exact reports_site (.call call) (reports_reportCall node none none)
  next opened => exact element (.inl opened)
  next closed => exact element (.inr closed)
  next comment =>
    refine reports_extraction.bind fun extraction same => .ite (fun reads => ?_) fun _ => .done _
    subst same
    refine .forM ?_
    rintro ⟨place, call⟩ inside
    have reports : Reports situation (Supplies situation call) (Search.reportCall call
        (some (Pattern.coversKey situation.extraction.preservePatterns)) (some (hintPlace node place))) fun _ => True :=
      reports_reportCall call _ _
    exact reports_site (.hint comment reads inside) reports
  next => exact .done _

end Proofs.SiteReports

end Phrasebook
