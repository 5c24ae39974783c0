import Phrasebook.Proofs.Outcomes
import Phrasebook.Proofs.SharedCatalogs
import Phrasebook.Proofs.WrittenLines

/-! The catalogs of an update one by one. Each is for a locale and a namespace, or for a locale and all namespaces; what
becomes of it depends on nothing but what is read of it, and is a fixed point of the way it becomes that. -/

namespace Phrasebook.Proofs.CatalogPairs

open Catalog Outcomes

/-- What a catalog is for: a locale, and a namespace unless it is for all of them. -/
abbrev Pair := String × Option String

variable (update : Update)

def pairsIn (locale : String) : List Pair :=
  if update.isShared then [(locale, none)] else (Table.names update.groups).map fun name => (locale, some name)

def pairs : List Pair := update.settings.locales.flatMap (pairsIn update)

def keysIn (name : String) : List Key := (Table.find? name update.groups).getD []

def become : Pair → Entries → Entries
  | (locale, none), existing => update.sharedContent locale existing
  | (locale, some name), existing => (update.mergeOfKeys locale name (keysIn update name)).content existing

def existing? (files : Files) (pair : Pair) : Option Entries :=
  match readAt update files pair.1 pair.2 with
  | .ok (existing, _) => existing
  | .error _ => none

variable {update} in
theorem existing?_of_readAt {files : Files} {pair : Pair} {found : Option Entries} {message : Option Message}
    (reading : readAt update files pair.1 pair.2 = .ok (found, message)) : existing? update files pair = found := by
  rw [existing?, reading]

def change (files : Files) (pair : Pair) : CatalogChange where
  path := Files.normalized (pathOf update pair.1 pair.2)
  namespaceName := pair.2
  locale := pair.1
  existing := existing? update files pair
  content := become update pair ((existing? update files pair).getD [])

variable {update} in
theorem content_change {files : Files} {pair : Pair} {existing : Entries}
    (read : (change update files pair).existing = some existing) :
    (change update files pair).content = become update pair existing := by
  rw [change, show existing? update files pair = some existing from read, Option.getD_some]

/-- Every catalog is read without a failure that ends a run. -/
def Readable (files : Files) : Prop := ∀ pair ∈ pairs update, ∃ read, readAt update files pair.1 pair.2 = .ok read

section Results

variable {α β : Type}

theorem mapM_eq_map {step : α → Except Failure β} {result : α → β} {items : List α}
    (each : ∀ item ∈ items, step item = .ok (result item)) : items.mapM step = .ok (items.map result) := by
  induction items with
  | nil => rfl
  | cons item rest ih =>
    rw [List.mapM_cons, each item List.mem_cons_self, ih fun other member => each other (List.mem_cons_of_mem _ member)]
    rfl

theorem ok_of_mapM {step : α → Except Failure β} {items : List α} {results : List β}
    (all : items.mapM step = .ok results) : ∀ item ∈ items, ∃ result, step item = .ok result := by
  induction items generalizing results with
  | nil => simp
  | cons item rest ih =>
    rw [List.mapM_cons] at all
    cases first : step item with
    | error failure =>
      rw [first] at all
      cases all
    | ok value =>
      cases others : rest.mapM step with
      | error failure =>
        rw [first, others] at all
        cases all
      | ok values => exact List.forall_mem_cons.mpr ⟨⟨value, first⟩, ih others⟩

theorem ok_of_map {result : Except Failure α} {convert : α → β} {value : β} (mapped : result.map convert = .ok value) :
    ∃ original, result = .ok original := by
  cases result with
  | error failure => cases mapped
  | ok original => exact ⟨original, rfl⟩

end Results

variable {update}

theorem sharedOutcome_eq {files : Files} {locale : String} {read : Option Entries × Option Message}
    (reading : readAt update files locale none = .ok read) :
    sharedOutcome update files locale = .ok (change update files (locale, none)) := by
  simp only [sharedOutcome, change, existing?, reading, become]
  rfl

theorem ownOutcome_eq (distinct : (Table.names update.groups).Nodup) {files : Files} {locale name : String}
    {keys : List Key} (member : (name, keys) ∈ update.groups) {read : Option Entries × Option Message}
    (reading : readAt update files locale (some name) = .ok read) :
    ownOutcome update files locale name keys = .ok (change update files (locale, some name)) := by
  have known : keysIn update name = keys := by
    rw [keysIn, (Table.find?_eq_some_iff distinct).mpr member, Option.getD_some]
  simp only [ownOutcome, change, existing?, reading, become, known]
  rfl

theorem localeOutcome_eq (distinct : (Table.names update.groups).Nodup) {files : Files} {locale : String}
    (readable : ∀ pair ∈ pairsIn update locale, ∃ read, readAt update files pair.1 pair.2 = .ok read) :
    localeOutcome update files locale = .ok ((pairsIn update locale).map (change update files)) := by
  unfold localeOutcome pairsIn at *
  split
  next shared =>
    obtain ⟨read, reading⟩ := readable (locale, none) (by rw [if_pos shared]; exact List.mem_cons_self)
    rw [sharedOutcome_eq reading]
    rfl
  next separate =>
    rw [if_neg separate] at readable
    have each : ∀ group ∈ update.groups, ownOutcome update files locale group.1 group.2 =
        .ok (change update files (locale, some group.1)) := by
      intro group member
      obtain ⟨read, reading⟩ := readable (locale, some group.1) (by simpa [Table.names] using ⟨_, member⟩)
      exact ownOutcome_eq distinct member reading
    rw [mapM_eq_map each, Table.names, List.map_map, List.map_map]
    rfl

theorem readable_of_localeOutcome {files : Files} {locale : String} {changes : List CatalogChange}
    (all : localeOutcome update files locale = .ok changes) :
    ∀ pair ∈ pairsIn update locale, ∃ read, readAt update files pair.1 pair.2 = .ok read := by
  unfold localeOutcome at all
  unfold pairsIn
  split at all
  next shared =>
    obtain ⟨made, outcome⟩ := ok_of_map all
    obtain ⟨read, reading⟩ := ok_of_map outcome
    simpa [shared] using ⟨_, _, reading⟩
  next separate =>
    rw [if_neg separate]
    intro pair member
    obtain ⟨name, named, rfl⟩ := List.mem_map.mp member
    obtain ⟨group, inside, rfl⟩ := List.mem_map.mp named
    obtain ⟨made, outcome⟩ := ok_of_mapM all group inside
    exact ok_of_map outcome

/-- The catalogs become what each of them becomes when every one is read, and nothing when one is not. -/
theorem outcome_eq_ok_iff (distinct : (Table.names update.groups).Nodup) {files : Files}
    {changes : List CatalogChange} : outcome update files = .ok changes ↔
      Readable update files ∧ changes = (pairs update).map (change update files) := by
  have made (readable : Readable update files) :
      outcome update files = .ok ((pairs update).map (change update files)) := by
    have each : ∀ locale ∈ update.settings.locales, localeOutcome update files locale =
        .ok ((pairsIn update locale).map (change update files)) := fun locale member =>
      localeOutcome_eq distinct fun pair inside => readable pair (List.mem_flatMap.mpr ⟨locale, member, inside⟩)
    rw [outcome, mapM_eq_map each, pairs, List.map_flatMap]
    rfl
  constructor
  · intro all
    obtain ⟨perLocale, locales⟩ := ok_of_map all
    have readable : Readable update files := by
      intro pair member
      obtain ⟨locale, listed, inside⟩ := List.mem_flatMap.mp member
      obtain ⟨here, found⟩ := ok_of_mapM locales locale listed
      exact readable_of_localeOutcome found pair inside
    exact ⟨readable, Except.ok.inj (all.symm.trans (made readable))⟩
  · rintro ⟨readable, rfl⟩
    exact made readable

theorem become_become (distinct : (Table.names update.groups).Nodup) (pair : Pair) (existing : Entries) :
    become update pair (become update pair existing) = become update pair existing := by
  obtain ⟨locale, _ | name⟩ := pair
  · exact SharedCatalogs.sharedContent_sharedContent update locale distinct existing
  · exact RepeatedMerge.content_content _ existing

/-- What a catalog becomes has the property of the catalog, if the values that are made up have it. -/
theorem holds_become {holds : Value → Prop} (hereditary : Value.Hereditary holds)
    (plain : ∀ request, holds (update.settings.extraction.defaultSource.value request))
    (distinct : (Table.names update.groups).Nodup) (pair : Pair) {existing : Entries}
    (given : holds (.object existing)) : holds (.object (become update pair existing)) := by
  obtain ⟨locale, _ | name⟩ := pair
  · exact SharedCatalogs.holds_sharedContent update locale hereditary plain distinct given
  · exact SharedCatalogs.holds_merge update locale hereditary plain _ given

end Phrasebook.Proofs.CatalogPairs
