import Phrasebook.Proofs.Pruning
import Phrasebook.Proofs.ReadCatalogs
import Phrasebook.Proofs.SettledCatalogs

/-! What a catalog holds where no key asks for anything, when values that only a catalog has are not removed. Every such
value stays in its place. The one way to lose it is a catalog for all namespaces in which the value itself stands where
a namespace would, under a name that no key's namespace has and that is not ignored. -/

namespace Phrasebook.Proofs.UnclaimedValues

open Catalog CatalogPairs MergedPlaces Places Pruning SharedCatalogs

/-- The trees that a catalog is made for: that of its namespace, or those of all namespaces by their names. -/
def claims (update : Update) (locale : String) : Option String → Tree.Entries Leaf
  | some name => (Built.ofKeys update.settings (keysIn update name) name locale).entries
  | none => update.groups.map fun (name, keys) =>
      (name, .branch (Built.ofKeys update.settings keys name locale).entries)

/-- Whether trees have nothing at a place and no leaf on the way to it. -/
def Unclaimed (entries : Tree.Entries Leaf) (place : List String) : Prop :=
  Tree.at? place (.branch entries) = none ∧
    ∀ above, above <+: place → above ≠ place → Tree.leafAt? above (.branch entries) = none

/-- Whether a place in a catalog for all namespaces is that of a namespace itself, and of one that is not ignored. -/
def Stray (update : Update) (namespaceName : Option String) (place : List String) : Prop :=
  namespaceName = none ∧ ∃ name, place = [name] ∧ name ∉ update.settings.extraction.ignoredNamespaces

namespace Unclaimed

variable {entries : Tree.Entries Leaf}

theorem ne_nil {place : List String} (unclaimed : Unclaimed entries place) : place ≠ [] := by
  rintro rfl
  cases unclaimed.1

/-- Nothing claims what lies under a name that there is no tree for. -/
theorem of_absent {name : String} (absent : Table.find? name entries = none) (rest : List String) :
    Unclaimed entries (name :: rest) := by
  refine ⟨by rw [Tree.at?, absent, Option.bind_none], ?_⟩
  intro above before different
  cases above with
  | nil => rfl
  | cons other further =>
    obtain ⟨rfl, _⟩ := List.cons_prefix_cons.mp before
    rw [leafAt?_cons_branch, absent, Option.bind_none]

theorem of_nil {place : List String} (somewhere : place ≠ []) : Unclaimed [] place := by
  obtain ⟨name, rest, rfl⟩ := List.exists_cons_of_ne_nil somewhere
  exact of_absent rfl rest

/-- Below a branch of its own, a place is as unclaimed as the rest of it is in that branch. -/
theorem below {name : String} {rest : List String} {inner : Tree.Entries Leaf}
    (known : Table.find? name entries = some (.branch inner)) (unclaimed : Unclaimed entries (name :: rest)) :
    Unclaimed inner rest := by
  obtain ⟨nothing, free⟩ := unclaimed
  refine ⟨?_, ?_⟩
  · simpa only [Tree.at?, known, Option.bind_some] using nothing
  · intro above before different
    have leafless := free (name :: above) (by simpa using before) (by simpa using different)
    simpa only [leafAt?_cons_branch, known, Option.bind_some] using leafless

theorem inside {name : String} {rest : List String} {inner : Tree.Entries Leaf}
    (known : Table.find? name entries = some (.branch inner)) (unclaimed : Unclaimed inner rest) :
    Unclaimed entries (name :: rest) := by
  obtain ⟨nothing, free⟩ := unclaimed
  refine ⟨by rw [Tree.at?, known, Option.bind_some, nothing], ?_⟩
  intro above before different
  cases above with
  | nil => rfl
  | cons other further =>
    obtain ⟨rfl, beforeBelow⟩ := List.cons_prefix_cons.mp before
    rw [leafAt?_cons_branch, known, Option.bind_some]
    exact free further beforeBelow fun same => different (same ▸ rfl)

end Unclaimed

section Merged

variable (merge : Merge) {existing : Entries} {place : List String} {value : Value}

/-- Where the tree claims nothing, a merge leaves a value in its place, or all that stays of it is what stays of a value
that only the catalog has. -/
theorem at?_content_cases (distinct : (Value.object existing).Distinct)
    (held : (Value.object existing).at? place = some value) (unclaimed : Unclaimed merge.built.entries place) :
    (Value.object (merge.content existing)).at? place = some value ∨
      ∃ above rest old, place = above ++ rest ∧ old.Distinct ∧ old.at? rest = some value ∧
        (Value.object (merge.content existing)).at? place =
          (merge.unused? (merge.policy.pathOf above) old).bind (Value.at? rest) := by
  refine (at?_merged_cases merge merge.built.distinct distinct held unclaimed.2).resolve_left ?_
  rw [unclaimed.1]
  exact Bool.false_ne_true

/-- A merge that removes nothing leaves every value in its place that the tree does not claim. -/
theorem at?_content_of_unclaimed (keeps : merge.policy.removeUnused = false)
    (distinct : (Value.object existing).Distinct) (held : (Value.object existing).at? place = some value)
    (unclaimed : Unclaimed merge.built.entries place) :
    (Value.object (merge.content existing)).at? place = some value := by
  rcases at?_content_cases merge distinct held unclaimed with stays | ⟨above, rest, old, rfl, _, heldBelow, same⟩
  · exact stays
  · rw [same, unused?_of_whole merge (Or.inl keeps), Option.bind_some, heldBelow]

/-- A single value stays for its own path, wherever the tree does not claim its place. -/
theorem at?_content_of_keepsUnused (distinct : (Value.object existing).Distinct) (single : value.isObject = false)
    (held : (Value.object existing).at? place = some value) (unclaimed : Unclaimed merge.built.entries place)
    (keeps : merge.keepsUnused (merge.policy.pathOf place) = true) :
    (Value.object (merge.content existing)).at? place = some value := by
  rcases at?_content_cases merge distinct held unclaimed with
    stays | ⟨above, rest, old, rfl, distinctOld, heldBelow, same⟩
  · exact stays
  · rw [Policy.pathOf, Policy.pathBelow_append] at keeps
    rw [same]
    exact (at?_unused?_single merge distinctOld heldBelow single).1 (Or.inr keeps)

end Merged

section Shared

variable {update : Update} {locale : String} {existing : Entries} {name : String}

theorem find?_claims_none :
    Table.find? name (claims update locale none) =
      (Table.find? name update.groups).map fun keys =>
        Tree.branch (Built.ofKeys update.settings keys name locale).entries :=
  Table.find?_map_named (fun name keys => Tree.branch (Built.ofKeys update.settings keys name locale).entries) name
    update.groups

/-- In a catalog for all namespaces nothing claims what stands in the place of a namespace without keys. -/
theorem Unclaimed.of_unused (unused : Table.find? name update.groups = none) (rest : List String) :
    Unclaimed (claims update locale none) (name :: rest) :=
  .of_absent (by rw [find?_claims_none, unused, Option.map_none]) rest

theorem find?_used :
    Table.find? name (used update locale existing) =
      (Table.find? name update.groups).map fun keys =>
        Value.object ((update.mergeOfKeys locale name keys).content (Update.entriesIn existing name)) :=
  Table.find?_map_named
    (fun name keys => Value.object ((update.mergeOfKeys locale name keys).content (Update.entriesIn existing name)))
    name update.groups

theorem find?_sharedContent_used {keys : List Key} (inUse : Table.find? name update.groups = some keys) :
    Table.find? name (update.sharedContent locale existing) =
      some (.object ((update.mergeOfKeys locale name keys).content (Update.entriesIn existing name))) := by
  rw [sharedContent_eq]
  apply Table.find?_append_of_find?
  rw [find?_used, inUse, Option.map_some]

theorem find?_sharedContent_idle (distinct : (Table.names existing).Nodup)
    (unused : Table.find? name update.groups = none) :
    Table.find? name (update.sharedContent locale existing) =
      (Table.find? name existing).bind (update.idleNamespace? locale name) := by
  have absent : Table.find? name (used update locale existing) = none := by
    rw [find?_used, unused, Option.map_none]
  have kept : idle update locale existing = existing.filterMap fun entry =>
      (if Table.has entry.1 (used update locale existing) then none
        else update.idleNamespace? locale entry.1 entry.2).map fun kept => (entry.1, kept) := by
    refine List.filterMap_congr fun entry _ => ?_
    dsimp only
    split <;> rfl
  rw [sharedContent_eq, Table.find?_append_of_none absent, kept,
    Table.find?_filterMap (fun name value => if Table.has name (used update locale existing) then none
      else update.idleNamespace? locale name value) distinct]
  refine Option.bind_congr fun value _ => ?_
  rw [Table.has, absent, Option.isSome_none, if_neg Bool.false_ne_true]

/-- A namespace that no keys are in stays when it is an object with anything in it. -/
theorem at?_idleNamespace? (keeps : update.settings.extraction.removeUnused = false) {value inner : Value}
    (distinct : value.Distinct) {next : String} {rest : List String} (held : value.at? (next :: rest) = some inner) :
    (update.idleNamespace? locale name value).bind (Value.at? (next :: rest)) = some inner := by
  rw [Update.idleNamespace?]
  split
  · exact held
  · have heldInside : (Value.object value.entries).at? (next :: rest) = some inner := by
      cases value with
      | object entries => exact held
      | _ => cases held
    have stays := at?_content_of_unclaimed (update.merge locale { namespaceName := name, locale }) keeps
      distinct.entries heldInside (Unclaimed.of_nil (List.cons_ne_nil next rest))
    split
    next nothing =>
      rw [nothing] at stays
      cases stays
    next => exact stays

/-- A single value in the place of a namespace that no keys are in stays when the name is ignored, and only then. -/
theorem idleNamespace?_of_single {value : Value} (single : value.isObject = false) :
    update.idleNamespace? locale name value =
      if name ∈ update.settings.extraction.ignoredNamespaces then some value else none := by
  have empty : value.entries = [] := by
    cases value with
    | object entries => cases single
    | _ => rfl
  have nothing : (update.merge locale { namespaceName := name, locale }).content [] = [] :=
    (MergeLevels.arrange_perm _ "" []).eq_nil
  simp only [Update.idleNamespace?, List.contains_iff_mem, empty, nothing]

theorem at?_sharedContent (keeps : update.settings.extraction.removeUnused = false)
    (distinct : (Value.object existing).Distinct) {place : List String} {value : Value}
    (single : value.isObject = false) (held : (Value.object existing).at? place = some value)
    (unclaimed : Unclaimed (claims update locale none) place) :
    (¬ Stray update none place → (Value.object (update.sharedContent locale existing)).at? place = some value) ∧
      (Stray update none place → (Value.object (update.sharedContent locale existing)).at? place = none) := by
  obtain ⟨name, rest, rfl⟩ := List.exists_cons_of_ne_nil unclaimed.ne_nil
  obtain ⟨old, found, heldBelow⟩ := Option.bind_eq_some_iff.mp held
  have distinctOld := distinct.inside _ (Table.mem_of_find? found)
  cases inUse : Table.find? name update.groups with
  | some keys =>
    have known : Table.find? name (claims update locale none) =
        some (.branch (Built.ofKeys update.settings keys name locale).entries) := by
      rw [find?_claims_none, inUse, Option.map_some]
    have below := unclaimed.below known
    obtain ⟨next, others, rfl⟩ := List.exists_cons_of_ne_nil below.ne_nil
    have heldInside : (Value.object (Update.entriesIn existing name)).at? (next :: others) = some value := by
      rw [Update.entriesIn, found]
      exact (at?_known (List.cons_ne_nil _ _) (some old)).trans heldBelow
    have distinctInside : (Value.object (Update.entriesIn existing name)).Distinct := by
      rw [Update.entriesIn, found]
      exact distinctOld.entries
    have stays := at?_content_of_unclaimed (update.mergeOfKeys locale name keys) keeps distinctInside heldInside below
    refine ⟨fun _ => ?_, ?_⟩
    · rw [Value.at?, find?_sharedContent_used inUse, Option.bind_some]
      exact stays
    · rintro ⟨_, other, same, _⟩
      cases same
  | none =>
    rw [Value.at?, find?_sharedContent_idle distinct.names inUse, found, Option.bind_some]
    cases rest with
    | nil =>
      obtain rfl := Option.some.inj heldBelow
      rw [idleNamespace?_of_single single]
      refine ⟨fun kept => ?_, ?_⟩
      · have ignored : name ∈ update.settings.extraction.ignoredNamespaces := by
          by_contra counted
          exact kept ⟨rfl, name, rfl, counted⟩
        rw [if_pos ignored]
        rfl
      · rintro ⟨_, other, same, counted⟩
        obtain rfl := List.head_eq_of_cons_eq same
        rw [if_neg counted]
        rfl
    | cons next others =>
      refine ⟨fun _ => at?_idleNamespace? keeps distinctOld heldBelow, ?_⟩
      rintro ⟨_, other, same, _⟩
      cases same

end Shared

/-- In the catalogs of a run that removes no unused values, a value that no tree claims stays in its place, with one
exception: in a catalog for all namespaces, a single value in the place of a namespace is lost, unless the name is
ignored. -/
theorem at?_content_unclaimed (settings : Settings) (keeps : settings.extraction.removeUnused = false) (sync : Sync)
    (keys : List Key) (files : Files) (journal : Journal) (changes : List CatalogChange)
    (success : (((Update.ofKeys settings sync keys).changes files).run.run journal).1 = .ok changes)
    (change : CatalogChange) (member : change ∈ changes) (existing : Entries)
    (read : change.existing = some existing) (place : List String) (value : Value) (single : value.isObject = false)
    (held : (Value.object existing).at? place = some value)
    (unclaimed : Unclaimed (claims (Update.ofKeys settings sync keys) change.locale change.namespaceName) place) :
    ((Value.object change.content).at? place = some value ↔
        ¬ Stray (Update.ofKeys settings sync keys) change.namespaceName place) ∧
      (Stray (Update.ofKeys settings sync keys) change.namespaceName place →
        (Value.object change.content).at? place = none) := by
  generalize made : Update.ofKeys settings sync keys = update at *
  have keepsHere : update.settings.extraction.removeUnused = false := made ▸ keeps
  have distinctGroups : (Table.names update.groups).Nodup :=
    made ▸ nodup_names_groupByNamespace settings.extraction.ignoredNamespaces keys
  rw [Outcomes.gives_changes update files journal] at success
  obtain ⟨_, rfl⟩ := (outcome_eq_ok_iff distinctGroups).mp success
  obtain ⟨⟨locale, namespaceName⟩, _, rfl⟩ := List.mem_map.mp member
  obtain ⟨text, _, reading⟩ := SettledCatalogs.text_of_existing? read
  have distinct := (ReadCatalogs.rounded_of_formatRead reading).distinct
  have content : (CatalogPairs.change update files (locale, namespaceName)).content =
      become update (locale, namespaceName) existing := by
    rw [CatalogPairs.change, show existing? update files (locale, namespaceName) = some existing from read,
      Option.getD_some]
  rw [content]
  have both : (¬ Stray update namespaceName place →
        (Value.object (become update (locale, namespaceName) existing)).at? place = some value) ∧
      (Stray update namespaceName place →
        (Value.object (become update (locale, namespaceName) existing)).at? place = none) := by
    cases namespaceName with
    | none => exact at?_sharedContent keepsHere distinct single held unclaimed
    | some name =>
      have stays := at?_content_of_unclaimed (update.mergeOfKeys locale name (keysIn update name)) keepsHere distinct
        held unclaimed
      refine ⟨fun _ => stays, ?_⟩
      rintro ⟨same, _⟩
      cases same
  refine ⟨⟨fun there stray => ?_, both.1⟩, both.2⟩
  cases there.symm.trans (both.2 stray)

/-- Settings with one catalog for all namespaces, from which nothing is removed. -/
def keepingSettings : Settings where
  locales := ["en"]
  extraction :=
    { output := .template "locales/\x7b\x7blanguage\x7d\x7d.json"
      primaryLanguage := some "en"
      mergeNamespaces := true
      removeUnused := false }

def keepingUpdate : Update :=
  .ofKeys keepingSettings {} [{ text := "a", namespaceName := "translation" }]

/-- A namespace without keys, and a text beside the namespaces. -/
def legacyEntries : Entries := [("legacy", .object [("title", .text "Title")]), ("old", .text "Old")]

def legacyFiles : Files where
  files := [(["locales", "en.json"], .text (catalogText keepingSettings.extraction legacyEntries))]

theorem storable_legacyEntries : (Value.object legacyEntries).Storable := by
  refine .object (by decide) ?_
  intro entry member
  simp only [legacyEntries, List.mem_cons, List.not_mem_nil, or_false] at member
  rcases member with rfl | rfl
  · exact .object (by decide) (by simpa using Value.Storable.text "Title")
  · exact .text "Old"

theorem readAt_legacyFiles : Outcomes.readAt keepingUpdate legacyFiles "en" none = .ok (some legacyEntries, none) := by
  have path : SettledCatalogs.rawPath keepingUpdate ("en", none) = "locales/en.json" := by with_unfolding_all rfl
  have leads : WrittenFiles.Leads legacyFiles (SettledCatalogs.rawPath keepingUpdate ("en", none)) := by
    rw [path]
    unfold WrittenFiles.Leads
    with_unfolding_all rfl
  have there : legacyFiles.find? (Files.placeOf (SettledCatalogs.rawPath keepingUpdate ("en", none))) =
      some (.text (catalogText keepingSettings.extraction legacyEntries)) := by
    have place : Files.placeOf "locales/en.json" = ["locales", "en.json"] := by with_unfolding_all rfl
    rw [path, place]
    rfl
  have json : keepingUpdate.settings.extraction.format = .json := rfl
  have blank : keepingUpdate.settings.extraction.indentation.Blank := trivial
  have reading := SettledCatalogs.readAt_of_text json blank storable_legacyEntries leads there
  exact reading

theorem existing?_legacyFiles : existing? keepingUpdate legacyFiles ("en", none) = some legacyEntries :=
  existing?_of_readAt readAt_legacyFiles

theorem changes_legacyFiles :
    ((keepingUpdate.changes legacyFiles).run.run {}).1 =
      .ok [CatalogPairs.change keepingUpdate legacyFiles ("en", none)] := by
  have distinct : (Table.names keepingUpdate.groups).Nodup := nodup_names_groupByNamespace _ _
  have readable : Readable keepingUpdate legacyFiles := by
    intro pair member
    obtain rfl := List.mem_singleton.mp (member : pair ∈ [("en", none)])
    exact ⟨_, readAt_legacyFiles⟩
  rw [Outcomes.gives_changes keepingUpdate legacyFiles {}]
  exact (outcome_eq_ok_iff distinct).mpr ⟨readable, rfl⟩

/-- What a namespace without keys holds stays. -/
theorem title_of_idle_namespace_stays :
    (Value.object (CatalogPairs.change keepingUpdate legacyFiles ("en", none)).content).at? ["legacy", "title"] =
      some (.text "Title") := by
  have stays := at?_content_unclaimed keepingSettings rfl {} [{ text := "a", namespaceName := "translation" }]
    legacyFiles {} _ changes_legacyFiles _ List.mem_cons_self legacyEntries existing?_legacyFiles ["legacy", "title"]
    (.text "Title") rfl rfl (.of_unused (by with_unfolding_all rfl) ["title"])
  refine stays.1.mpr ?_
  rintro ⟨_, name, same, _⟩
  cases same

/-- A text beside the namespaces is lost, although nothing is to be removed and no key asks for anything there. -/
theorem text_beside_namespaces_is_lost :
    keepingSettings.extraction.removeUnused = false ∧
      ∃ change, ((keepingUpdate.changes legacyFiles).run.run {}).1 = .ok [change] ∧
        change.existing = some legacyEntries ∧ (Value.object legacyEntries).at? ["old"] = some (.text "Old") ∧
        Unclaimed (claims keepingUpdate change.locale change.namespaceName) ["old"] ∧
        (Value.object change.content).at? ["old"] = none := by
  have unused : Table.find? "old" keepingUpdate.groups = none := by with_unfolding_all rfl
  have distinct : (Value.object legacyEntries).Distinct :=
    storable_legacyEntries.rounded.distinct
  have content : (CatalogPairs.change keepingUpdate legacyFiles ("en", none)).content =
      keepingUpdate.sharedContent "en" legacyEntries := by
    rw [CatalogPairs.change, existing?_legacyFiles]
    rfl
  refine ⟨rfl, _, changes_legacyFiles, existing?_legacyFiles, rfl, .of_unused unused [], ?_⟩
  rw [content]
  apply (at?_sharedContent rfl distinct rfl rfl (.of_unused unused [])).2
  exact ⟨rfl, "old", rfl, List.not_mem_nil⟩

end Phrasebook.Proofs.UnclaimedValues
