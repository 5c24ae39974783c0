import Mathlib.Data.Multiset.AddSub
import Phrasebook.Proofs.Outcomes
import Phrasebook.Proofs.ReorderedKeys
import Phrasebook.Proofs.SharedCatalogs

/-! What the order in which keys are found is to the catalogs. It decides between texts of equal rank for one path, and
in catalogs for all namespaces it is the order of the namespaces; where neither shows, the catalogs are the same. -/

namespace Phrasebook.Proofs.DiscoveryOrder

open Built Catalog JoinedLeaves Outcomes ReorderedKeys Survival

variable {settings : Settings} {keys others : List Key}

section Results

variable {α β : Type}

theorem error_of_map {result : Except Failure α} {convert : α → β} {failure : Failure}
    (mapped : result.map convert = .error failure) : result = .error failure := by
  cases result with
  | error other => exact congrArg Except.error (Except.error.inj mapped)
  | ok value => cases mapped

/-- The results of a list of steps, in whatever order. -/
def gathered (results : Except Failure (List β)) : Except Failure (Multiset β) :=
  results.map Multiset.ofList

theorem gathered_cons {step : α → Except Failure β} (item : α) (items : List α) :
    gathered ((item :: items).mapM step) =
      step item >>= fun value => (gathered (items.mapM step)).map (value ::ₘ ·) := by
  rw [List.mapM_cons]
  cases step item with
  | error failure => rfl
  | ok value => cases items.mapM step <;> rfl

/-- Steps that can only fail in one way have the same results in any order. -/
theorem gathered_mapM_perm {step : α → Except Failure β} {failure : Failure}
    (fails : ∀ item other, step item = .error other → other = failure) {items others : List α}
    (same : items.Perm others) : gathered (items.mapM step) = gathered (others.mapM step) := by
  induction same with
  | nil => rfl
  | cons item _ ih => rw [gathered_cons, gathered_cons, ih]
  | swap first second rest =>
    simp only [gathered_cons]
    cases one : step first with
    | error other =>
      obtain rfl := fails _ _ one
      cases two : step second with
      | error other => rw [fails _ _ two]
      | ok value => rfl
    | ok value =>
      cases two : step second with
      | error other => rfl
      | ok twin =>
        cases gathered (rest.mapM step) with
        | error other => rfl
        | ok values => exact congrArg Except.ok (Multiset.cons_swap twin value values)
  | trans _ _ first second => exact first.trans second

end Results

def written (extraction : Extraction) (change : CatalogChange) : String × String :=
  (change.path, catalogText extraction change.content)

def texts (extraction : Extraction) (result : Except Failure (List CatalogChange)) :
    Except Failure (Multiset (String × String)) :=
  gathered (result.map (List.map (written extraction)))

theorem texts_mapM {α : Type} (extraction : Extraction) (step : α → Except Failure CatalogChange) (items : List α) :
    texts extraction (items.mapM step) = gathered (items.mapM fun item => (step item).map (written extraction)) := by
  refine congrArg gathered ?_
  induction items with
  | nil => rfl
  | cons item items ih =>
    rw [List.mapM_cons, List.mapM_cons, ← ih]
    cases step item with
    | error failure => rfl
    | ok change => cases items.mapM step <;> rfl

theorem texts_flatten_cons (extraction : Extraction) (step : String → Except Failure (List CatalogChange))
    (locale : String) (locales : List String) :
    texts extraction (((locale :: locales).mapM step).map List.flatten) =
      texts extraction (step locale) >>= fun here =>
        (texts extraction ((locales.mapM step).map List.flatten)).map (here + ·) := by
  rw [List.mapM_cons]
  cases step locale with
  | error failure => rfl
  | ok changes =>
    cases locales.mapM step with
    | error failure => rfl
    | ok others =>
      refine congrArg Except.ok ?_
      simp only [List.flatten_cons, List.map_append, Multiset.coe_add]

/-- Catalogs of locales one after the other are the same when those of each locale are. -/
theorem texts_flatten {extraction : Extraction} {first second : String → Except Failure (List CatalogChange)}
    {locales : List String} (each : ∀ locale ∈ locales, texts extraction (first locale) = texts extraction (second locale)) :
    texts extraction ((locales.mapM first).map List.flatten) =
      texts extraction ((locales.mapM second).map List.flatten) := by
  induction locales with
  | nil => rfl
  | cons locale locales ih =>
    rw [texts_flatten_cons, texts_flatten_cons, each locale List.mem_cons_self,
      ih fun other member => each other (List.mem_cons_of_mem _ member)]

theorem ofKeys_filter (settings : Settings) (keys : List Key) (name locale : String) :
    ofKeys settings (keys.filter fun key => key.namespaceName = name) name locale = ofKeys settings keys name locale := by
  unfold ofKeys
  simp only [List.filter_filter, Bool.and_self]

theorem namespacesIn_perm (ignored : List String) (same : keys.Perm others) :
    (namespacesIn ignored keys).Perm (namespacesIn ignored others) := by
  refine (List.perm_ext_iff_of_nodup (Key.nodup_addNew List.nodup_nil _) (Key.nodup_addNew List.nodup_nil _)).mpr ?_
  intro name
  simp only [Key.mem_addNew, ((same.map _).filter _).mem_iff]

theorem eq_of_readCatalog_error {format : Format} {files : Files} {path : String} {failure : Failure}
    (failed : readCatalog format files path = .error failure) : failure = .characterNumberTooLarge := by
  unfold readCatalog at failed
  split at failed
  · cases failed
  · cases failed
  · split at failed
    · cases failed
    · cases failed
    · exact (Except.error.inj failed).symm
    · cases failed

theorem eq_of_ownOutcome_error {update : Update} {files : Files} {locale name : String} {failure : Failure}
    (failed : ownOutcome update files locale name keys = .error failure) : failure = .characterNumberTooLarge :=
  eq_of_readCatalog_error (error_of_map failed)

theorem mergeOfKeys_filter (update : Update) (locale name : String) (keys : List Key) :
    update.mergeOfKeys locale name (keys.filter fun key => key.namespaceName = name) =
      update.mergeOfKeys locale name keys := by
  rw [Update.mergeOfKeys, ofKeys_filter]
  rfl

theorem content_mergeOfKeys (sync : Sync) (same : keys.Perm others) (sorted : settings.extraction.order = .ascending)
    {locale name : String} (agree : SameTexts settings name locale keys others) (existing : Entries) :
    ((Update.ofKeys settings sync keys).mergeOfKeys locale name (keys.filter fun key => key.namespaceName = name)).content
        existing =
      ((Update.ofKeys settings sync others).mergeOfKeys locale name
        (others.filter fun key => key.namespaceName = name)).content existing := by
  rw [mergeOfKeys_filter, mergeOfKeys_filter]
  exact content_of_perm same agree _ sorted existing

theorem mapM_congr {α β : Type} {first second : α → Except Failure β} {items : List α}
    (each : ∀ item ∈ items, first item = second item) : items.mapM first = items.mapM second := by
  induction items with
  | nil => rfl
  | cons item items ih =>
    rw [List.mapM_cons, List.mapM_cons, each item List.mem_cons_self,
      ih fun other member => each other (List.mem_cons_of_mem _ member)]

theorem groups_ofKeys (settings : Settings) (sync : Sync) (keys : List Key) :
    (Update.ofKeys settings sync keys).groups = (namespacesIn settings.extraction.ignoredNamespaces keys).map
      fun name => (name, keys.filter fun key => key.namespaceName = name) := rfl

theorem written_ownOutcome (sync : Sync) (files : Files) (same : keys.Perm others)
    (sorted : settings.extraction.order = .ascending) {locale name : String}
    (agree : SameTexts settings name locale keys others) :
    (ownOutcome (Update.ofKeys settings sync keys) files locale name
        (keys.filter fun key => key.namespaceName = name)).map (written settings.extraction) =
      (ownOutcome (Update.ofKeys settings sync others) files locale name
        (others.filter fun key => key.namespaceName = name)).map (written settings.extraction) := by
  have content := content_mergeOfKeys sync same sorted agree
  have read : readAt (Update.ofKeys settings sync keys) files locale (some name) =
      readAt (Update.ofKeys settings sync others) files locale (some name) := rfl
  unfold ownOutcome
  rw [read]
  cases readAt (Update.ofKeys settings sync others) files locale (some name) with
  | error failure => rfl
  | ok found => exact congrArg (fun content => Except.ok (_, catalogText settings.extraction content)) (content _)

theorem texts_own (sync : Sync) (files : Files) (same : keys.Perm others)
    (sorted : settings.extraction.order = .ascending) {locale : String}
    (agree : ∀ name ∈ namespacesIn settings.extraction.ignoredNamespaces keys,
      SameTexts settings name locale keys others) :
    texts settings.extraction ((Update.ofKeys settings sync keys).groups.mapM fun (name, found) =>
        ownOutcome (Update.ofKeys settings sync keys) files locale name found) =
      texts settings.extraction ((Update.ofKeys settings sync others).groups.mapM fun (name, found) =>
        ownOutcome (Update.ofKeys settings sync others) files locale name found) := by
  have only (name : String) (failure : Failure)
      (failed : (ownOutcome (Update.ofKeys settings sync others) files locale name
        (others.filter fun key => key.namespaceName = name)).map (written settings.extraction) = .error failure) :
      failure = .characterNumberTooLarge := eq_of_ownOutcome_error (error_of_map failed)
  rw [texts_mapM, texts_mapM, groups_ofKeys, groups_ofKeys, List.mapM_map, List.mapM_map]
  refine Eq.trans ?_ (gathered_mapM_perm only (namespacesIn_perm _ same))
  refine congrArg gathered (mapM_congr fun name member => ?_)
  exact written_ownOutcome sync files same sorted (agree name member)

theorem sharedContent_eq (sync : Sync) (same : keys.Perm others) (sorted : settings.extraction.order = .ascending)
    {locale : String}
    (agree : ∀ name ∈ namespacesIn settings.extraction.ignoredNamespaces keys,
      SameTexts settings name locale keys others)
    (ordered : namespacesIn settings.extraction.ignoredNamespaces keys =
      namespacesIn settings.extraction.ignoredNamespaces others) (existing : Entries) :
    (Update.ofKeys settings sync keys).sharedContent locale existing =
      (Update.ofKeys settings sync others).sharedContent locale existing := by
  have used : SharedCatalogs.used (Update.ofKeys settings sync keys) locale existing =
      SharedCatalogs.used (Update.ofKeys settings sync others) locale existing := by
    rw [SharedCatalogs.used, SharedCatalogs.used, groups_ofKeys, groups_ofKeys, List.map_map, List.map_map, ← ordered]
    refine List.map_congr_left fun name member => ?_
    exact congrArg (fun content => (name, Value.object content)) (content_mergeOfKeys sync same sorted (agree name member) _)
  have idle : SharedCatalogs.idle (Update.ofKeys settings sync keys) locale existing =
      SharedCatalogs.idle (Update.ofKeys settings sync others) locale existing := by
    unfold SharedCatalogs.idle
    rw [used]
    rfl
  rw [SharedCatalogs.sharedContent_eq, SharedCatalogs.sharedContent_eq, used, idle]

theorem texts_shared (sync : Sync) (files : Files) (same : keys.Perm others)
    (sorted : settings.extraction.order = .ascending) {locale : String}
    (agree : ∀ name ∈ namespacesIn settings.extraction.ignoredNamespaces keys,
      SameTexts settings name locale keys others)
    (ordered : namespacesIn settings.extraction.ignoredNamespaces keys =
      namespacesIn settings.extraction.ignoredNamespaces others) :
    sharedOutcome (Update.ofKeys settings sync keys) files locale =
      sharedOutcome (Update.ofKeys settings sync others) files locale := by
  have content := sharedContent_eq sync same sorted agree ordered
  unfold sharedOutcome
  simp only [content]
  rfl

/-- The namespaces in front in a catalog for all of them are those of the keys, in the order of the keys. -/
theorem namespacesIn_eq_of_sharedContent {sync : Sync} (same : keys.Perm others) {locale : String} {existing : Entries}
    (alike : (Update.ofKeys settings sync keys).sharedContent locale existing =
      (Update.ofKeys settings sync others).sharedContent locale existing) :
    namespacesIn settings.extraction.ignoredNamespaces keys = namespacesIn settings.extraction.ignoredNamespaces others := by
  have names := congrArg Table.names alike
  have leading (found : List Key) : Table.names (Update.ofKeys settings sync found).groups =
      namespacesIn settings.extraction.ignoredNamespaces found := names_groupByNamespace _ found
  rw [SharedCatalogs.sharedContent_eq, SharedCatalogs.sharedContent_eq, Table.names_append, Table.names_append,
    SharedCatalogs.names_used, SharedCatalogs.names_used, leading, leading] at names
  exact List.append_inj_left names (namespacesIn_perm _ same).length_eq

/-- The paths and texts of the catalogs that keys ask for. -/
def catalogTexts (settings : Settings) (sync : Sync) (keys : List Key) (files : Files) (journal : Journal) :
    Except Failure (Multiset (String × String)) :=
  texts settings.extraction (((Update.ofKeys settings sync keys).changes files).run.run journal).1

/-- Where names are sorted, keys in another order give the same catalogs, if for every path they settle on the same
text, and if a catalog for all namespaces takes these in the same order. Both are needed: a primary locale without a
catalog shows the texts, and a catalog for all namespaces shows their order. -/
theorem catalogs_of_reordered_keys (settings : Settings) (sync : Sync) (keys others : List Key) (same : keys.Perm others)
    (sorted : settings.extraction.order = .ascending) :
    ((∀ locale ∈ settings.locales, ∀ name ∈ namespacesIn settings.extraction.ignoredNamespaces keys,
        SameTexts settings name locale keys others) →
      ((Update.ofKeys settings sync keys).isShared = true →
        namespacesIn settings.extraction.ignoredNamespaces keys =
          namespacesIn settings.extraction.ignoredNamespaces others) →
      ∀ files journal later,
        catalogTexts settings sync keys files journal = catalogTexts settings sync others files later) ∧
    (∀ name,
      ((Update.ofKeys settings sync keys).mergeOfKeys settings.primaryLanguage name keys).content [] =
        ((Update.ofKeys settings sync others).mergeOfKeys settings.primaryLanguage name others).content [] →
      SameTexts settings name settings.primaryLanguage keys others) ∧
    (∀ locale existing,
      (Update.ofKeys settings sync keys).sharedContent locale existing =
        (Update.ofKeys settings sync others).sharedContent locale existing →
      namespacesIn settings.extraction.ignoredNamespaces keys =
        namespacesIn settings.extraction.ignoredNamespaces others) := by
  refine ⟨?_, ?_, fun _ _ alike => namespacesIn_eq_of_sharedContent same alike⟩
  · intro agree ordered files journal later
    rw [catalogTexts, catalogTexts, gives_changes, gives_changes]
    refine texts_flatten fun locale member => ?_
    unfold localeOutcome
    cases shared : (Update.ofKeys settings sync keys).isShared with
    | true =>
      have twin : (Update.ofKeys settings sync others).isShared = true := shared
      rw [if_pos rfl, if_pos twin, texts_shared sync files same sorted (agree locale member) (ordered shared)]
    | false =>
      have twin : (Update.ofKeys settings sync others).isShared = false := shared
      rw [twin, if_neg Bool.false_ne_true, if_neg Bool.false_ne_true]
      exact texts_own sync files same sorted (agree locale member)
  · intro name alike
    have isPrimary : (settings.primaryLanguage == settings.primaryLanguage) = true := beq_self_eq_true _
    simp only [Update.mergeOfKeys, Update.merge, Update.ofKeys, isPrimary] at alike
    exact sameTexts_of_content same alike

theorem catalogs_of_two_keys :
    [plainKey "a", plainKey "b"].Perm [plainKey "b", plainKey "a"] ∧ english.extraction.order = .ascending ∧
      catalogTexts english {} [plainKey "a", plainKey "b"] {} {} =
        catalogTexts english {} [plainKey "b", plainKey "a"] {} {} := by
  have same : [plainKey "a", plainKey "b"].Perm [plainKey "b", plainKey "a"] := List.Perm.swap _ _ _
  refine ⟨same, rfl, (catalogs_of_reordered_keys english {} _ _ same rfl).1 ?_ (fun _ => rfl) {} {} {}⟩
  intro locale _ name _ path _ _
  by_cases named : "translation" = name <;> by_cases first : "a" = path <;> by_cases second : "b" = path <;>
    simp [settledText?, askedIn, asked, leavesOf, plainKey, named, first, second]

def together : Settings where
  locales := ["en"]
  extraction :=
    { primaryLanguage := some "en"
      mergeNamespaces := true
      output := .template "locales/\x7b\x7blanguage\x7d\x7d.json" }

/-- Settings of a project in a language that has one form for all numbers. -/
def japanese : Settings := { locales := ["ja"], extraction := { primaryLanguage := some "ja" } }

/-- The order of the namespaces shows in a catalog for all of them, and so does which of two texts for one path was
found first. -/
theorem order_of_keys_shows :
    (let first : Key := { text := "a", namespaceName := "one" }
      let second : Key := { text := "b", namespaceName := "two" }
      catalogTexts together {} [first, second] {} {} ≠ catalogTexts together {} [second, first] {} {}) ∧
    (let single : Key := { plainKey "item" with defaultValue := some "A", explicitDefault := true }
      let counted : Key := { plainKey "item" with plural := some { default := some "B", explicitVariants := true } }
      catalogTexts japanese {} [single, counted] {} {} ≠ catalogTexts japanese {} [counted, single] {} {}) := by
  constructor <;> decide +kernel

end Phrasebook.Proofs.DiscoveryOrder
