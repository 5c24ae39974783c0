import Phrasebook.Project.Catalogs
import Phrasebook.Proofs.RepeatedMerge
import Phrasebook.Proofs.StorableValues

/-! A catalog for all namespaces. Namespaces that keys are in stand in front, each with what its own merge makes of it,
and behind them what is kept of the others. Bringing the catalog up to date a second time changes nothing, and if it
could be written before it can be written again. -/

namespace Phrasebook.Proofs.SharedCatalogs

open Catalog

variable (update : Update) (locale : String)

def used (existing : Entries) : Entries :=
  update.groups.map fun (name, keys) =>
    (name, .object ((update.mergeOfKeys locale name keys).content (Update.entriesIn existing name)))

/-- What stays of the namespaces that no keys are in. -/
def idle (existing : Entries) : Entries :=
  existing.filterMap fun (name, value) =>
    if Table.has name (used update locale existing) then none
    else (update.idleNamespace? locale name value).map fun kept => (name, kept)

theorem sharedContent_eq (existing : Entries) :
    update.sharedContent locale existing = used update locale existing ++ idle update locale existing := rfl

@[simp] theorem names_used (existing : Entries) :
    Table.names (used update locale existing) = Table.names update.groups := by
  simp [used, Table.names, Function.comp_def]

theorem mem_idle {existing : Entries} {entry : String × Value} (member : entry ∈ idle update locale existing) :
    entry.1 ∉ Table.names update.groups ∧
      ∃ value, (entry.1, value) ∈ existing ∧ update.idleNamespace? locale entry.1 value = some entry.2 := by
  obtain ⟨⟨name, value⟩, inside, keeps⟩ := List.mem_filterMap.mp member
  dsimp only at keeps
  split at keeps
  · cases keeps
  next absent =>
    rw [Table.has_iff, names_used] at absent
    obtain ⟨kept, found, rfl⟩ := Option.map_eq_some_iff.mp keeps
    exact ⟨absent, value, inside, found⟩

/-- What stays of a namespace without keys stays as a whole. -/
theorem idleNamespace?_again {name : String} {value kept : Value}
    (found : update.idleNamespace? locale name value = some kept) :
    update.idleNamespace? locale name kept = some kept := by
  unfold Update.idleNamespace? at found ⊢
  split at found
  next ignored => exact if_pos ignored
  next counted =>
    rw [if_neg counted]
    have again := RepeatedMerge.content_content (update.merge locale { namespaceName := name, locale }) value.entries
    cases made : (update.merge locale { namespaceName := name, locale }).content value.entries with
    | nil =>
      rw [made] at found
      cases found
    | cons first rest =>
      rw [made] at found again
      obtain rfl := Option.some.inj found
      rw [Value.entries, again]

theorem entriesIn_sharedContent (distinct : (Table.names update.groups).Nodup) (existing : Entries)
    {name : String} {keys : List Key} (member : (name, keys) ∈ update.groups) :
    Update.entriesIn (update.sharedContent locale existing) name =
      (update.mergeOfKeys locale name keys).content (Update.entriesIn existing name) := by
  have made : (name, .object ((update.mergeOfKeys locale name keys).content (Update.entriesIn existing name))) ∈
      used update locale existing := List.mem_map_of_mem member
  rw [← names_used update locale existing] at distinct
  have found := (Table.find?_eq_some_iff distinct).mpr made
  rw [Update.entriesIn, sharedContent_eq, Table.find?_append_of_find? found]
  rfl

theorem idle_used_append_idle (existing other : Entries) :
    idle update locale (used update locale other ++ idle update locale existing) = idle update locale existing := by
  have names (existing : Entries) (name : String) :
      Table.has name (used update locale existing) = true ↔ name ∈ Table.names update.groups := by
    rw [Table.has_iff, names_used]
  rw [idle, List.filterMap_append, List.filterMap_eq_nil_iff.mpr, List.nil_append]
  · refine (List.filterMap_congr fun entry member => ?_).trans List.filterMap_some
    obtain ⟨absent, value, _, found⟩ := mem_idle update locale member
    dsimp only
    rw [if_neg (mt (names _ _).mp absent), idleNamespace?_again update locale found]
    rfl
  · intro entry member
    have inGroups : entry.1 ∈ Table.names update.groups := by
      rw [← names_used update locale other]
      exact List.mem_map_of_mem member
    exact if_pos ((names _ _).mpr inGroups)

/-- Bringing a catalog for all namespaces up to date a second time changes nothing. -/
theorem sharedContent_sharedContent (distinct : (Table.names update.groups).Nodup) (existing : Entries) :
    update.sharedContent locale (update.sharedContent locale existing) = update.sharedContent locale existing := by
  have sameUsed : used update locale (update.sharedContent locale existing) = used update locale existing := by
    refine List.map_congr_left fun group member => ?_
    obtain ⟨name, keys⟩ := group
    dsimp only
    rw [entriesIn_sharedContent update locale distinct existing member, RepeatedMerge.content_content]
  rw [sharedContent_eq update locale (update.sharedContent locale existing), sameUsed,
    sharedContent_eq update locale existing, idle_used_append_idle]

theorem names_idle (existing : Entries) :
    (Table.names (idle update locale existing)).Sublist (Table.names existing) := by
  unfold idle
  generalize used update locale existing = known
  induction existing with
  | nil => exact .refl _
  | cons entry rest ih =>
    rw [List.filterMap_cons]
    split
    · exact ih.cons entry.1
    next kept found =>
      have same : kept.1 = entry.1 := by
        dsimp only at found
        split at found
        · cases found
        · obtain ⟨value, _, rfl⟩ := Option.map_eq_some_iff.mp found
          rfl
      rw [Table.names_cons, same]
      exact ih.cons_cons entry.1

variable {holds : Value → Prop} (hereditary : Value.Hereditary holds)
  (plain : ∀ request, holds (update.settings.extraction.defaultSource.value request))
include hereditary plain

theorem holds_merge (built : Built) {existing : Entries} (given : holds (.object existing)) :
    holds (.object ((update.merge locale built).content existing)) :=
  StorableValues.holds_content hereditary (update.merge locale built) plain given

theorem holds_of_idleNamespace? {name : String} {value kept : Value} (given : holds value)
    (found : update.idleNamespace? locale name value = some kept) : holds kept := by
  unfold Update.idleNamespace? at found
  split at found
  · exact Option.some.inj found ▸ given
  · split at found
    · cases found
    · exact Option.some.inj found ▸ holds_merge update locale hereditary plain _ (hereditary.entries given)

theorem holds_sharedContent (distinct : (Table.names update.groups).Nodup) {existing : Entries}
    (given : holds (.object existing)) : holds (.object (update.sharedContent locale existing)) := by
  refine hereditary.object ?_ fun entry member => ?_
  · rw [sharedContent_eq, Table.names_append, names_used, List.nodup_append]
    refine ⟨distinct, (hereditary.names given).sublist (names_idle update locale existing), ?_⟩
    rintro name inGroups _ member rfl
    obtain ⟨entry, inside, rfl⟩ := List.mem_map.mp member
    exact (mem_idle update locale inside).1 inGroups
  · rcases List.mem_append.mp member with ofKeys | kept
    · obtain ⟨⟨name, keys⟩, _, rfl⟩ := List.mem_map.mp ofKeys
      refine holds_merge update locale hereditary plain _ ?_
      cases found : Table.find? name existing with
      | none =>
        rw [Update.entriesIn, found]
        exact hereditary.empty
      | some value =>
        rw [Update.entriesIn, found]
        exact hereditary.entries (hereditary.inside given _ (Table.mem_of_find? found))
    · obtain ⟨_, value, inside, keeps⟩ := mem_idle update locale kept
      exact holds_of_idleNamespace? update locale hereditary plain (hereditary.inside given _ inside) keeps

end Phrasebook.Proofs.SharedCatalogs
