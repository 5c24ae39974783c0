import Phrasebook.Proofs.BuiltPlaces
import Phrasebook.Proofs.KeyOrigins
import Phrasebook.Proofs.ReplacedValues
import Phrasebook.Proofs.RunSteps

/-! Which texts a run puts in the place of texts of the primary locale. They are texts of keys that count them as given by
the source, and a site of the source stands behind each, unless a plugin brings its key. The site gives the text, or it
gives one to another key or to another form; the key itself then stands in. -/

namespace Phrasebook.Proofs.SyncedTexts

open Built BuiltPlaces Catalog CatalogPairs JoinedLeaves KeyOrigins Outcomes Placement ReplacedValues RunSteps SearchSteps
open SearchWalks SettledCatalogs SiteReports SourceIsolation Syntax UnclaimedValues WrittenFiles

section Leaves

variable {settings : Settings} {locale : String} {key : Key} {request : PluralRequest}

theorem holds_of_form? {category : Category} {text : String} (own : request.form? category = some text) :
    request.Holds text := .inl ⟨_, Table.mem_of_find? own, rfl⟩

/-- The text of the forms without their own counts as given where all forms do, or where it is that of the rest. -/
theorem counts_generalText (asked : request ∈ key.plural)
    (given : request.explicitVariants = true ∨ (request.form? .other).isSome = true) :
    key.Counts (request.generalText key.text) := by
  unfold PluralRequest.generalText
  cases other : request.form? .other with
  | some text => exact .form asked (holds_of_form? other)
  | none =>
    cases shared : request.default with
    | some text => exact .form asked (.inr (.inl shared))
    | none =>
      cases called : request.callDefault with
      | some text => exact .form asked (.inr (.inr called))
      | none => exact .rest asked ⟨given.resolve_right (by simp [other]), shared, called⟩ rfl

theorem counts_textFor (asked : request ∈ key.plural) {category : Category}
    (given : request.explicitVariants = true ∨ (request.form? category).isSome = true ∨
      (request.form? .other).isSome = true) : key.Counts (request.textFor key.text category) := by
  unfold PluralRequest.textFor
  cases own : request.form? category with
  | some text => exact .form asked (holds_of_form? own)
  | none =>
    have general : key.Counts (request.generalText key.text) :=
      counts_generalText asked (given.imp_right fun either => either.resolve_left (by simp [own]))
    dsimp only
    split
    · cases shared : request.default with
      | some text => exact .form asked (.inr (.inl shared))
      | none =>
        cases called : request.callDefault with
        | some text => exact .form asked (.inr (.inr called))
        | none => exact general
    · exact general

/-- A leaf that has its text from the source has one that its key counts so. -/
theorem counts_of_mem_leavesOf {path : String} {leaf : Leaf} (member : (path, leaf) ∈ leavesOf settings locale key)
    (explicit : leaf.explicit = true) : key.Counts leaf.defaultValue := by
  unfold leavesOf at member
  split at member
  · obtain ⟨rfl, rfl⟩ := Prod.mk.inj (List.mem_singleton.mp member)
    exact .default explicit rfl
  next request asked =>
    obtain ⟨variant, among, same⟩ := List.mem_map.mp member
    obtain ⟨rfl, rfl⟩ := Prod.mk.inj same
    unfold PluralRequest.variants at among
    split at among
    · obtain rfl := List.mem_singleton.mp among
      exact counts_generalText asked (Bool.or_eq_true_iff.mp explicit)
    · obtain ⟨category, -, rfl⟩ := List.mem_map.mp among
      refine counts_textFor asked ?_
      simpa only [Bool.or_eq_true, or_assoc] using explicit

/-- A leaf of a tree that has its text from the source has it from a key that asks for its path. -/
theorem key_of_leaf {keys : List Key} {namespaceName : String} {spot : List String} {leaf : Leaf}
    (asks : Tree.leafAt? spot (.branch (ofKeys settings keys namespaceName locale).entries) = some leaf)
    (explicit : leaf.explicit = true) : ∃ key ∈ keys, key.namespaceName = namespaceName ∧
      leaf.key ∈ Table.names (leavesOf settings locale key) ∧ key.Counts leaf.defaultValue := by
  obtain ⟨path, member, -⟩ := (leafAt?_entriesOf _ nodup_names_leavesIn spot leaf).mp asks
  have joined := (Table.find?_eq_some_iff nodup_names_leavesIn).mpr member
  rw [leavesIn, find?_leaves] at joined
  obtain ⟨first, decides, rfl⟩ := Option.map_eq_some_iff.mp joined
  rw [deciding, if_pos explicit] at decides
  obtain ⟨among, firstExplicit⟩ := List.mem_filter.mp (List.mem_of_head? decides)
  obtain ⟨key, inside, here, made⟩ := mem_asked_iff.mp among
  have counts : key.Counts first.defaultValue := counts_of_mem_leavesOf made firstExplicit
  exact ⟨key, inside, here, List.mem_map_of_mem made, counts⟩

end Leaves

section Catalogs

variable {settings : Settings} {sync : Sync} {keys : List Key} {locale : String}

theorem mem_of_mem_group {name : String} {group : List Key}
    (known : Table.find? name (Update.ofKeys settings sync keys).groups = some group) {key : Key} (member : key ∈ group) :
    key ∈ keys := by
  obtain ⟨other, -, same⟩ := List.mem_map.mp (Table.mem_of_find? known)
  obtain ⟨rfl, rfl⟩ := Prod.mk.inj same
  exact (List.mem_filter.mp member).1

/-- Whether a key asks for the text at a place of a catalog: for the path of the leaf there, in the namespace of the
catalog or in the one that the place starts with. -/
def AsksAt (update : Update) (locale : String) (namespaceName : Option String) (place : List String) (key : Key) :
    Prop :=
  ∃ leaf, Tree.leafAt? place (.branch (claims update locale namespaceName)) = some leaf ∧
    leaf.key ∈ Table.names (leavesOf update.settings locale key) ∧
    (namespaceName <|> place.head?) = some key.namespaceName

theorem key_of_claim {namespaceName : Option String} {place : List String} {leaf : Leaf}
    (asks : Tree.leafAt? place (.branch (claims (Update.ofKeys settings sync keys) locale namespaceName)) = some leaf)
    (explicit : leaf.explicit = true) : ∃ key ∈ keys,
      AsksAt (Update.ofKeys settings sync keys) locale namespaceName place key ∧ key.Counts leaf.defaultValue := by
  cases namespaceName with
  | some name =>
    obtain ⟨key, member, here, path, counts⟩ := key_of_leaf asks explicit
    unfold CatalogPairs.keysIn at member
    cases known : Table.find? name (Update.ofKeys settings sync keys).groups with
    | none =>
      rw [known] at member
      cases member
    | some group =>
      rw [known] at member
      exact ⟨key, mem_of_mem_group known member, ⟨leaf, asks, path, congrArg some here.symm⟩, counts⟩
  | none =>
    cases place with
    | nil => cases asks
    | cons name rest =>
      have asksBelow := asks
      rw [Places.leafAt?_cons_branch, find?_claims_none] at asksBelow
      obtain ⟨tree, found, below⟩ := Option.bind_eq_some_iff.mp asksBelow
      obtain ⟨group, known, rfl⟩ := Option.map_eq_some_iff.mp found
      obtain ⟨key, member, here, path, counts⟩ := key_of_leaf below explicit
      exact ⟨key, mem_of_mem_group known member, ⟨leaf, asks, path, congrArg some here.symm⟩, counts⟩

end Catalogs

section Supplies

variable {settings : Settings} {files : Files} {identity text : String} {key : Key}

/-- Whether a source of a project shows a key at a site, in the situation in which the walk comes there. -/
def ShowsAt (settings : Settings) (files : Files) (there : Situation) (site : Node) (seen : Key) : Prop :=
  ∃ file ∈ candidates settings files, ∃ root, tree? settings files file = some root ∧
    ∃ way node, Reaches (opening settings file) root way there node ∧
      ∃ report, SiteAt there.extraction node ⟨site, report⟩ ∧ Shows there report seen

/-- Whether something holds of a site that shows a key of an identity. -/
def AtSite (settings : Settings) (files : Files) (identity : String) (holds : Situation → Node → Key → Prop) : Prop :=
  ∃ there site seen, ShowsAt settings files there site seen ∧ seen.identity = identity ∧ holds there site seen

/-- Whether a site that shows a key gives a text for catalogs. -/
def Given (settings : Settings) (files : Files) (identity text : String) : Prop :=
  AtSite settings files identity fun there site _ => GivesText there.extraction site text

/-- Whether a text is a key itself, and a site that shows the key has default texts for other forms, or a text for
another one of several keys. -/
def StandsIn (settings : Settings) (files : Files) (identity : String) (key : Key) (text : String) : Prop :=
  AtSite settings files identity fun there site seen =>
    (text = key.text ∨ IsKeyItself seen.text text) ∧ (NamesDefault site ∨ NamesSeveral there site)

/-- Whether a plugin brings a key of an identity that counts a text as given. -/
def Brought (settings : Settings) (identity : String) : Prop :=
  ∃ plugin ∈ settings.plugins, ∃ key text, plugin.Brings settings.extraction.defaultNamespace key ∧
    key.identity = identity ∧ key.Counts text

theorem AtSite.cases {first second : Situation → Node → Key → Prop}
    (either : AtSite settings files identity fun there site seen => first there site seen ∨ second there site seen) :
    AtSite settings files identity first ∨ AtSite settings files identity second := by
  obtain ⟨there, site, seen, shows, same, held⟩ := either
  exact held.imp (fun held => ⟨there, site, seen, shows, same, held⟩) fun held => ⟨there, site, seen, shows, same, held⟩

/-- A key that counts something as given stems from a site that has it, or a plugin brings it. -/
theorem atSite_or_brought {holds : Key → Prop} {supplied : Situation → Node → Key → Prop}
    (stems : From (Origin settings files) identity holds)
    (shown : ∀ there site seen, Supplies there site seen → holds seen → supplied there site seen)
    (counts : ∀ seen, holds seen → ∃ text, seen.Counts text) :
    AtSite settings files identity supplied ∨ Brought settings identity := by
  obtain ⟨seen, origin, same, held⟩ := stems
  cases origin with
  | source among parsed shows =>
    obtain ⟨way, there, node, reaches, site, siteAt, shows, supplies⟩ := shows
    have here := shown there site.node seen supplies held
    exact .inl ⟨there, site.node, seen, ⟨_, among, _, parsed, way, node, reaches, _, siteAt, shows⟩, same, here⟩
  | plugin known brings =>
    obtain ⟨text, counted⟩ := counts seen held
    exact .inr ⟨_, known, seen, text, brings, same, counted⟩

theorem supplied_of_counts (rooted : Rooted (Origin settings files) identity key) (counts : key.Counts text) :
    Given settings files identity text ∨ StandsIn settings files identity key text ∨ Brought settings identity := by
  cases counts with
  | default explicit same =>
    have either : AtSite settings files identity (fun there site seen => GivesText there.extraction site text ∨
        (text = key.text ∨ IsKeyItself seen.text text) ∧ (NamesDefault site ∨ NamesSeveral there site)) ∨
          Brought settings identity := by
      refine atSite_or_brought (rooted.default explicit) ?_ fun seen held => ⟨_, .default held.1 rfl⟩
      intro there site seen supplies ⟨counts, held⟩
      obtain ⟨own, known, supplied⟩ := supplies.default counts
      rcases held with missing | alike
      · cases missing.symm.trans known
      · obtain rfl : own = text := by rw [← same, ← alike, known, Option.getD_some]
        exact supplied.imp_right fun ⟨itself, named⟩ => ⟨.inr itself, named⟩
    exact or_assoc.mp (either.imp_left AtSite.cases)
  | form asked holds =>
    have either : Given settings files identity text ∨ Brought settings identity := by
      refine atSite_or_brought (rooted.forms _ asked text holds) ?_ ?_
      · intro there site seen supplies ⟨given, inside, held⟩
        exact (supplies.plural given inside).given text held
      · intro seen ⟨given, inside, held⟩
        exact ⟨text, .form inside held⟩
    exact either.imp_right .inr
  | rest asked bare same =>
    have either : StandsIn settings files identity key text ∨ Brought settings identity := by
      refine atSite_or_brought (rooted.rest _ asked bare) ?_ ?_
      · intro there site seen supplies ⟨given, inside, held⟩
        exact ⟨.inl same.symm, (supplies.plural given inside).rest held.explicit held.default held.callDefault⟩
      · intro seen ⟨given, inside, held⟩
        exact ⟨_, .rest inside held rfl⟩
    exact .inr either

end Supplies

/-- Where a run makes a single value of the primary locale another one, it was asked to replace texts, and the new value
is a text of a key that asks for it at that place. A site of the sources that shows this key gives the text, or the key
stands in itself where a site gives default texts to other forms or to another one of several keys, or a plugin brings
the key. -/
theorem replaced_text_is_supplied (settings : Settings) (sync : Sync) (before after : Project)
    (changes : List CatalogChange) (extracted : Runs (Run.extract settings sync) before changes after)
    (change : CatalogChange) (member : change ∈ changes) (primary : change.locale = settings.primaryLanguage)
    (existing : Entries) (read : change.existing = some existing) (place : List String) (new : Value)
    (replaced : Replaced (.object existing) (.object change.content) place new) :
    sync.primary = true ∧ ∃ text, new = .text text ∧ ∃ found searched,
      Runs (Run.search settings) before found searched ∧ ∃ entry ∈ found.keys,
        AsksAt (Update.ofKeys settings sync found.keys.toList) change.locale change.namespaceName place entry.2 ∧
        (Given settings before.files entry.1 text ∨ StandsIn settings before.files entry.1 entry.2 text ∨
          Brought settings entry.1) := by
  obtain ⟨-, found, searched, searching, -, made⟩ := of_runs_extract extracted
  have distinctGroups : (Table.names (Update.ofKeys settings sync found.keys.toList).groups).Nodup :=
    nodup_names_groupByNamespace settings.extraction.ignoredNamespaces found.keys.toList
  obtain ⟨-, rfl⟩ := (outcome_eq_ok_iff distinctGroups).mp made
  obtain ⟨⟨locale, namespaceName⟩, -, rfl⟩ := List.mem_map.mp member
  obtain ⟨text, -, reading⟩ := text_of_existing? read
  have distinct := (ReadCatalogs.rounded_of_formatRead reading).distinct
  rw [content_change read] at replaced
  obtain ⟨asked, leaf, claims, explicit, rfl⟩ := leaf_of_become primary distinct replaced
  obtain ⟨key, inside, asks, counts⟩ := key_of_claim claims explicit
  obtain ⟨entry, among, rfl⟩ := List.mem_map.mp inside
  obtain ⟨journal, ended⟩ := found_of_search searching
  exact ⟨asked, _, rfl, found, searched, searching, entry, among, asks,
    supplied_of_counts (allRooted_found ended entry among) counts⟩

section Refusals

/-- A node inside another one, or that one itself. -/
inductive Within : Node → Node → Prop
  | here {node} : Within node node
  | inside {node child found} (member : child ∈ node.children) (below : Within child found) : Within node found

theorem within_of_reaches {situation there : Situation} {node found : Node} {way : List Stage}
    (reaches : Reaches situation node way there found) : Within node found := by
  induction reaches with
  | here => exact .here
  | inside children _ _ _ within => exact .inside (by simp [children]) within

/-- Whether something holds of a node and of all nodes inside it. -/
def everywhere (holds : Node → Bool) : Node → Bool
  | ⟨kind, role, text, start, children⟩ => holds ⟨kind, role, text, start, children⟩ && inAll children
where
  inAll : List Node → Bool
    | [] => true
    | child :: rest => everywhere holds child && inAll rest

theorem everywhere_of_mem {holds : Node → Bool} {child : Node} {children : List Node}
    (all : everywhere.inAll holds children = true) (member : child ∈ children) : everywhere holds child = true := by
  induction children with
  | nil => cases member
  | cons first rest ih =>
    obtain ⟨here, others⟩ := Bool.and_eq_true_iff.mp all
    rcases List.mem_cons.mp member with rfl | later
    · exact here
    · exact ih others later

theorem of_everywhere {holds : Node → Bool} {node found : Node} (all : everywhere holds node = true)
    (within : Within node found) : holds found = true := by
  induction within with
  | @here node =>
    cases node
    exact (Bool.and_eq_true_iff.mp all).1
  | @inside node child found member below ih =>
    cases node
    exact ih (everywhere_of_mem (Bool.and_eq_true_iff.mp all).2 member)

/-- Whether a node is no element and no comment, and as a call has no options and a second argument of another text if
it has any. -/
def refuses (text : String) (node : Node) : Bool :=
  let second := (node.callArguments[1]?).bind Node.unwrap
  node.kind ≠ .jsxElement && node.kind ≠ .jsxSelfClosingElement && node.kind ≠ .comment &&
    (attributeTable node).isEmpty && (node.callArguments[2]?).isNone &&
    second.all fun second => second.kind ≠ .object && second.stringValue? ≠ .ok (some text)

theorem not_givesText_of_refuses {extraction : Extraction} {text : String} {node : Node} {site : Site}
    (refused : refuses text node = true) (siteAt : SiteAt extraction node site) :
    ¬ GivesText extraction site.node text := by
  simp only [refuses, Bool.and_eq_true, decide_eq_true_eq, Option.all_eq_true, Option.isNone_iff_eq_none,
    List.isEmpty_iff] at refused
  obtain ⟨⟨⟨⟨⟨noElement, noClosed⟩, noComment⟩, noAttributes⟩, noThird⟩, noText⟩ := refused
  cases siteAt with
  | element element => exact absurd element (not_or.mpr ⟨noElement, noClosed⟩)
  | hint comment => exact absurd comment noComment
  | call call =>
    rintro (⟨argument, value⟩ | ⟨⟨argument, object⟩ | ⟨argument⟩ | ⟨value⟩, -⟩ | ⟨value⟩ | ⟨value, filled⟩)
    · exact (noText _ argument).2 value
    · exact (noText _ argument).1 object
    · rw [noThird] at argument
      cases argument
    · rw [noAttributes] at value
      cases value
    · rw [noAttributes] at value
      cases value
    · rw [contentText, if_neg noElement] at value
      obtain rfl := Except.ok.inj value
      cases filled

/-- A text that every node of the sources refuses is given at no site. -/
theorem not_given_of_refuses {settings : Settings} {files : Files} {text : String}
    (refused : ∀ file ∈ candidates settings files, ∀ root ∈ tree? settings files file,
      everywhere (refuses text) root = true) (identity : String) : ¬ Given settings files identity text := by
  rintro ⟨there, site, seen, ⟨file, among, root, parsed, way, node, reaches, report, siteAt, -⟩, -, gives⟩
  have here := of_everywhere (refused file among root parsed) (within_of_reaches reaches)
  exact not_givesText_of_refuses here siteAt gives

theorem mem_identity {c : Char} {key : Key} (member : c ∈ key.text.toList) : c ∈ key.identity.toList := by
  unfold Key.identity
  split
  · simp [member]
  · dsimp only
    split <;> simp [member]

/-- A text that ends in a character that its key does not have is not the key. -/
theorem not_standsIn {settings : Settings} {files : Files} {identity text : String} {key : Key} {c : Char}
    (last : text.toList.getLast? = some c) (foreign : c ∉ identity.toList) (other : text ≠ key.text) :
    ¬ StandsIn settings files identity key text := by
  rintro ⟨there, site, seen, -, rfl, same | itself, -⟩
  · exact other same
  · obtain ⟨before, front, inner, behind, named, rfl, filled⟩ := itself
    rw [String.toList_append] at last
    have inside : c ∈ inner.toList := by
      rcases inner.toList.eq_nil_or_concat' with empty | ⟨start, final, shape⟩
      · rw [Text.isBlankText, empty] at filled
        cases filled
      · rw [shape, ← List.append_assoc, List.getLast?_concat] at last
        obtain rfl := Option.some.inj last
        simp [shape]
    exact foreign (mem_identity (by simp [named, inside]))

end Refusals

section Examples

/-- Settings with one locale, whose catalog is written in the order of the keys. -/
def syncing : Settings where
  locales := ["en"]
  extraction := { input := ["src/*.ts"], primaryLanguage := some "en", order := .unsorted }

/-- A project with one source, and the catalog of its locale. -/
def holding (code : String) (existing : Entries) : Project where
  files :=
    { files := [(["src", "a.ts"], .text code),
        (["locales", "en", "translation.json"], .text (catalogText syncing.extraction existing))] }

/-- What the run over that project is to bring up to date, with the keys of the source. -/
def updateOf (code : String) (existing : Entries) : Update :=
  .ofKeys syncing { primary := true } (keysOf syncing (holding code existing).files ["src/a.ts"]).toList

def catalog (code : String) (existing : Entries) : CatalogChange :=
  CatalogPairs.change (updateOf code existing) (holding code existing).files ("en", some "translation")

variable {code : String} {existing : Entries}

theorem candidates_holding : candidates syncing (holding code existing).files = ["src/a.ts"] := by
  unfold holding
  generalize catalogText syncing.extraction existing = content
  refine @candidates_of_matching _ [["src", "a.ts"]] ?_ ?_ ?_ ?_ (List.pairwise_singleton _ _)
  · cbv
  · cbv
  · cbv
  · cbv

theorem readAt_holding (storable : (Value.object existing).Storable) :
    readAt (updateOf code existing) (holding code existing).files "en" (some "translation") =
      .ok (some existing, none) := by
  have path : rawPath (updateOf code existing) ("en", some "translation") = "locales/en/translation.json" := by
    with_unfolding_all rfl
  have leads : Leads (holding code existing).files (rawPath (updateOf code existing) ("en", some "translation")) := by
    rw [path]
    unfold Leads
    with_unfolding_all rfl
  have there : (holding code existing).files.find?
      (Files.placeOf (rawPath (updateOf code existing) ("en", some "translation"))) =
        some (.text (catalogText (updateOf code existing).settings.extraction existing)) := by
    have place : Files.placeOf "locales/en/translation.json" = ["locales", "en", "translation.json"] := by
      with_unfolding_all rfl
    rw [path, place]
    rfl
  have json : (updateOf code existing).settings.extraction.format = .json := rfl
  have blank : (updateOf code existing).settings.extraction.indentation.Blank := trivial
  have reading := readAt_of_text json blank storable leads there
  exact reading

theorem runs_search_holding (searched : (searchOne syncing (holding code existing).files "src/a.ts" {}).1 = .ok ()) :
    ∃ after, Runs (Run.search syncing) (holding code existing)
      ⟨keysOf syncing (holding code existing).files ["src/a.ts"], ["src/a.ts"], []⟩ after := by
  have processed := canProcess_of_ok searched
  have contained : ∀ file ∈ candidates syncing (holding code existing).files,
      breaks syncing (holding code existing).files file = false := by
    rw [candidates_holding]
    refine List.forall_mem_singleton.mpr ?_
    rw [breaks, searched]
  refine runs_search (by decide +kernel) fun journal => ?_
  rw [findKeys_of_contained contained, candidates_holding]
  simp [processed]

/-- The run over the project ends, with that one catalog, where the source can be searched and has keys of the one
namespace only. -/
theorem runs_extract_holding (storable : (Value.object existing).Storable)
    (searched : (searchOne syncing (holding code existing).files "src/a.ts" {}).1 = .ok ())
    (one : Table.names (updateOf code existing).groups = ["translation"]) :
    ∃ after, Runs (Run.extract syncing { primary := true }) (holding code existing) [catalog code existing] after := by
  have paired : pairs (updateOf code existing) = [("en", some "translation")] := by
    have separate : pairsIn (updateOf code existing) "en" =
        (Table.names (updateOf code existing).groups).map fun name => ("en", some name) := rfl
    change [_].flatMap _ = _
    rw [List.flatMap_singleton, separate, one]
    rfl
  have made : outcome (updateOf code existing) (holding code existing).files = .ok [catalog code existing] := by
    refine (outcome_eq_ok_iff (nodup_names_groupByNamespace _ _)).mpr ⟨fun pair member => ?_, ?_⟩
    · rw [paired] at member
      obtain rfl := List.mem_singleton.mp member
      exact ⟨_, readAt_holding storable⟩
    · rw [paired]
      rfl
  obtain ⟨between, searching⟩ := runs_search_holding searched
  obtain ⟨after, extracted, -⟩ := runs_extract searching rfl made
  exact ⟨after, extracted⟩

theorem existing_catalog (code : String) (storable : (Value.object existing).Storable) :
    (catalog code existing).existing = some existing := existing?_of_readAt (readAt_holding storable)

theorem replaced_of_texts {before after : Value} {place : List String} {old new : String}
    (held : before.at? place = some (.text old)) (made : (after.at? place).bind Value.text? = some new)
    (different : new ≠ old) : Replaced before after place (.text new) := by
  obtain ⟨value, found, same⟩ := Option.bind_eq_some_iff.mp made
  cases value with
  | text value =>
    obtain rfl := Option.some.inj same
    exact ⟨⟨.text old, held, rfl, fun same => different (Value.text.inj same)⟩, found, rfl⟩
  | _ => cases same

def oldTitle : Entries := [("a", .text "Old")]

def titleCall : String := "t('a', 'New')"

theorem storable_oldTitle : (Value.object oldTitle).Storable :=
  .object (List.nodup_singleton _) (by simpa [oldTitle] using Value.Storable.text "Old")

/-- The text beside the key of a call takes the place of the one in the catalog. -/
theorem given_text_replaces_old_one :
    ∃ after, Runs (Run.extract syncing { primary := true }) (holding titleCall oldTitle)
        [catalog titleCall oldTitle] after ∧
      Replaced (.object oldTitle) (.object (catalog titleCall oldTitle).content) ["a"] (.text "New") ∧
      Given syncing (holding titleCall oldTitle).files "translation:a" "New" := by
  have searched : (searchOne syncing (holding titleCall oldTitle).files "src/a.ts" {}).1 = .ok () := by decide +kernel
  have one : Table.names (updateOf titleCall oldTitle).groups = ["translation"] := by decide +kernel
  have named : (keysOf syncing (holding titleCall oldTitle).files ["src/a.ts"]).map
      (fun entry => (entry.1, entry.2.text)) = [("translation:a", "a")] := by decide +kernel
  have read := existing_catalog titleCall storable_oldTitle
  have made : ((Value.object (become (updateOf titleCall oldTitle) ("en", some "translation") oldTitle)).at? ["a"]).bind
      Value.text? = some "New" := by decide +kernel
  have replaced : Replaced (.object oldTitle) (.object (catalog titleCall oldTitle).content) ["a"] (.text "New") := by
    rw [catalog, content_change read]
    exact replaced_of_texts rfl made (by decide)
  obtain ⟨after, extracted⟩ := runs_extract_holding storable_oldTitle searched one
  obtain ⟨-, text, same, found, ready, searching, entry, member, -, supplied⟩ :=
    replaced_text_is_supplied syncing { primary := true } _ after _ extracted _ (List.mem_singleton_self _) rfl oldTitle
      read ["a"] (.text "New") replaced
  obtain rfl := Value.text.inj same
  obtain ⟨between, searchingHere⟩ := runs_search_holding searched
  obtain ⟨rfl, -⟩ := searching.unique searchingHere
  have known := named ▸ List.mem_map_of_mem member
  obtain ⟨identity, text⟩ := Prod.mk.inj (List.mem_singleton.mp known)
  refine ⟨after, extracted, replaced, ?_⟩
  rw [identity] at supplied
  rcases supplied with given | stands | ⟨plugin, impossible, -⟩
  · exact given
  · exact absurd stands (not_standsIn rfl (by decide) (by rw [text]; decide))
  · cases impossible

def humanTexts : Entries := [("a", .text "Human text"), ("b", .text "Old")]

def severalKeys : String := "t(['a', 'b'], 'Text of b')"

theorem storable_humanTexts : (Value.object humanTexts).Storable := by
  refine .object (by decide) ?_
  intro entry member
  simp only [humanTexts, List.mem_cons, List.not_mem_nil, or_false] at member
  rcases member with rfl | rfl
  · exact .text "Human text"
  · exact .text "Old"

/-- Of several keys all count as given with the text of the last one. The first one takes the place of its text in the
catalog itself, although no site gives the key for a text. -/
theorem key_itself_replaces_text :
    (∃ after, Runs (Run.extract syncing { primary := true }) (holding severalKeys humanTexts)
      [catalog severalKeys humanTexts] after) ∧
    (catalog severalKeys humanTexts).locale = syncing.primaryLanguage ∧
    (catalog severalKeys humanTexts).existing = some humanTexts ∧
    Replaced (.object humanTexts) (.object (catalog severalKeys humanTexts).content) ["a"] (.text "a") ∧
    syncing.plugins = [] ∧
    ∀ identity, ¬ Given syncing (holding severalKeys humanTexts).files identity "a" := by
  have searched : (searchOne syncing (holding severalKeys humanTexts).files "src/a.ts" {}).1 = .ok () := by
    decide +kernel
  have one : Table.names (updateOf severalKeys humanTexts).groups = ["translation"] := by decide +kernel
  have read := existing_catalog severalKeys storable_humanTexts
  have made : ((Value.object (become (updateOf severalKeys humanTexts) ("en", some "translation") humanTexts)).at?
      ["a"]).bind Value.text? = some "a" := by decide +kernel
  have refused : (tree? syncing (holding severalKeys humanTexts).files "src/a.ts").all
      (everywhere (refuses "a")) = true := by decide +kernel
  refine ⟨runs_extract_holding storable_humanTexts searched one, rfl, read, ?_, rfl, not_given_of_refuses ?_⟩
  · rw [catalog, content_change read]
    exact replaced_of_texts rfl made (by decide)
  · rw [candidates_holding]
    exact List.forall_mem_singleton.mpr ((Option.all_eq_true _ _).mp refused)

end Examples

end Phrasebook.Proofs.SyncedTexts
