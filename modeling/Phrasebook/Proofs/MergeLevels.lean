import Phrasebook.Proofs.Places
import Phrasebook.Proofs.StableSorting
import Phrasebook.Tree.Merge

/-! A level of a merge: in front the values made for the entries of the tree, and behind them what is kept of those
that only the catalog knows. However the level is sorted, a name of the tree leads to the value made for it, and any
other name to what is kept there. -/

namespace Phrasebook.Proofs.MergeLevels

open Catalog

variable (merge : Merge)

theorem mem_unusedEntries {path : String} {entries : Entries} {entry : String × Value}
    (member : entry ∈ merge.unusedEntries path entries) :
    ∃ value, (entry.1, value) ∈ entries ∧ merge.unused? (merge.policy.join path entry.1) value = some entry.2 := by
  induction entries with
  | nil => cases member
  | cons first rest ih =>
    obtain ⟨segment, value⟩ := first
    rw [Merge.unusedEntries] at member
    split at member
    next kept found =>
      rcases List.mem_cons.mp member with rfl | later
      · exact ⟨value, List.mem_cons_self, found⟩
      · obtain ⟨old, inside, keeps⟩ := ih later
        exact ⟨old, List.mem_cons_of_mem _ inside, keeps⟩
    next =>
      obtain ⟨old, inside, keeps⟩ := ih member
      exact ⟨old, List.mem_cons_of_mem _ inside, keeps⟩

theorem names_unusedEntries (path : String) (entries : Entries) :
    (Table.names (merge.unusedEntries path entries)).Sublist (Table.names entries) := by
  induction entries with
  | nil => exact .refl _
  | cons entry rest ih =>
    rw [Merge.unusedEntries]
    split
    · exact ih.cons_cons entry.1
    · exact ih.cons entry.1

/-- Of entries that name nothing twice, each is kept or dropped by itself. -/
theorem find?_unusedEntries {path : String} {entries : Entries} (distinct : (Table.names entries).Nodup)
    (name : String) :
    Table.find? name (merge.unusedEntries path entries) =
      (Table.find? name entries).bind (merge.unused? (merge.policy.join path name)) := by
  induction entries with
  | nil => rfl
  | cons entry rest ih =>
    obtain ⟨segment, value⟩ := entry
    rw [Table.names_cons, List.nodup_cons] at distinct
    have later := ih distinct.2
    by_cases same : segment = name
    · subst same
      have absent : Table.find? segment rest = none := Table.find?_eq_none_iff.mpr distinct.1
      rw [absent] at later
      cases kept : merge.unused? (merge.policy.join path segment) value <;>
        simp [Merge.unusedEntries, Table.find?, kept, later]
    · cases kept : merge.unused? (merge.policy.join path segment) value <;>
        simp [Merge.unusedEntries, Table.find?, kept, same, later]

/-- The entries of a level of the result: those of the tree, and behind them what is kept of the others. -/
def level (path : String) (existing : Entries) (entries : Tree.Entries Leaf) : Entries :=
  merge.treeEntries path existing entries ++ merge.unusedEntries path (Merge.unknown entries existing)

theorem mem_treeEntries {path : String} {existing : Entries} {entries : Tree.Entries Leaf} {entry : String × Tree Leaf}
    (member : entry ∈ entries) :
    (entry.1, merge.treeValue (merge.policy.join path entry.1) (Table.find? entry.1 existing) entry.2) ∈
      merge.treeEntries path existing entries := by
  induction entries with
  | nil => cases member
  | cons first rest ih =>
    rw [Merge.treeEntries]
    rcases List.mem_cons.mp member with rfl | later
    · exact List.mem_cons_self
    · exact List.mem_cons_of_mem _ (ih later)

@[simp] theorem names_treeEntries (path : String) (existing : Entries) (entries : Tree.Entries Leaf) :
    Table.names (merge.treeEntries path existing entries) = Table.names entries := by
  induction entries with
  | nil => rfl
  | cons first rest ih => simp [Merge.treeEntries, ih]

theorem treeEntries_congr {path : String} {first second : Entries} {entries : Tree.Entries Leaf}
    (same : ∀ entry ∈ entries,
      merge.treeValue (merge.policy.join path entry.1) (Table.find? entry.1 first) entry.2 =
        merge.treeValue (merge.policy.join path entry.1) (Table.find? entry.1 second) entry.2) :
    merge.treeEntries path first entries = merge.treeEntries path second entries := by
  induction entries with
  | nil => rfl
  | cons entry rest ih =>
    rw [Merge.treeEntries, Merge.treeEntries, same entry List.mem_cons_self,
      ih fun other member => same other (List.mem_cons_of_mem _ member)]

theorem has_of_mem_unusedEntries {path : String} {existing : Entries} {entries : Tree.Entries Leaf}
    {entry : String × Value} (member : entry ∈ merge.unusedEntries path (Merge.unknown entries existing)) :
    Table.has entry.1 entries = false := by
  obtain ⟨value, inside, _⟩ := mem_unusedEntries merge member
  simpa using (List.mem_filter.mp inside).2

theorem has_of_mem_treeEntries {path : String} {existing : Entries} {entries : Tree.Entries Leaf}
    {entry : String × Value} (member : entry ∈ merge.treeEntries path existing entries) :
    Table.has entry.1 entries = true := by
  rw [Table.has_iff, ← names_treeEntries merge path existing entries]
  exact List.mem_map_of_mem member

theorem arrange_perm (path : String) (entries : Entries) : (merge.arrange path entries).Perm entries :=
  StableSorting.arrange_perm merge.policy.order merge.built.namespaceName (merge.policy.join path) entries

theorem mem_of_mem_arrange {path : String} {existing : Entries} {entries : Tree.Entries Leaf} {entry : String × Value}
    (member : entry ∈ merge.arrange path (level merge path existing entries)) :
    entry ∈ merge.treeEntries path existing entries ∨
      entry ∈ merge.unusedEntries path (Merge.unknown entries existing) :=
  List.mem_append.mp ((arrange_perm merge path _).mem_iff.mp member)

/-- At a name of the tree the result holds the value made for it, wherever sorting has put it. -/
theorem find?_arrange_level {path : String} {existing : Entries} {entries : Tree.Entries Leaf}
    (distinct : (Table.names entries).Nodup) {entry : String × Tree Leaf} (member : entry ∈ entries) :
    Table.find? entry.1 (merge.arrange path (level merge path existing entries)) =
      some (merge.treeValue (merge.policy.join path entry.1) (Table.find? entry.1 existing) entry.2) := by
  have made : (entry.1, merge.treeValue (merge.policy.join path entry.1) (Table.find? entry.1 existing) entry.2) ∈
      merge.treeEntries path existing entries := mem_treeEntries merge member
  apply Table.find?_eq_of_only
  · exact (arrange_perm merge path _).mem_iff.mpr (List.mem_append_left _ made)
  · intro other otherMember
    rw [← names_treeEntries merge path existing entries] at distinct
    rcases mem_of_mem_arrange merge otherMember with ofTree | kept
    · have one := (Table.find?_eq_some_iff distinct).mpr ofTree
      have two := (Table.find?_eq_some_iff distinct).mpr made
      exact Option.some.inj (one.symm.trans two)
    · have unknown := has_of_mem_unusedEntries merge kept
      rw [Bool.eq_false_iff, ne_eq, Table.has_iff] at unknown
      exact absurd (List.mem_map_of_mem member) unknown

/-- The names of a level are told apart: those of the tree from each other and from those kept of the catalog. -/
theorem nodup_names_level {path : String} {existing : Entries} {entries : Tree.Entries Leaf}
    (distinct : (Table.names entries).Nodup) (names : (Table.names existing).Nodup) :
    (Table.names (level merge path existing entries)).Nodup := by
  have kept := names_unusedEntries merge path (Merge.unknown entries existing)
  have unknown : (Table.names (Merge.unknown entries existing)).Sublist (Table.names existing) :=
    List.filter_sublist.map Prod.fst
  rw [level, Table.names_append, names_treeEntries, List.nodup_append]
  refine ⟨distinct, names.sublist (kept.trans unknown), ?_⟩
  rintro name ofTree _ member rfl
  obtain ⟨entry, inside, rfl⟩ := List.mem_map.mp member
  have absent := has_of_mem_unusedEntries merge inside
  rw [Bool.eq_false_iff, ne_eq, Table.has_iff] at absent
  exact absent ofTree

theorem find?_unknown {entries : Tree.Entries Leaf} {name : String} (lacks : Table.find? name entries = none)
    (existing : Entries) : Table.find? name (Merge.unknown entries existing) = Table.find? name existing := by
  induction existing with
  | nil => rfl
  | cons entry rest ih =>
    obtain ⟨other, value⟩ := entry
    rw [Merge.unknown] at ih ⊢
    by_cases same : other = name
    · subst same
      simp [Table.find?, Table.has, lacks]
    · cases has : Table.has other entries <;> simp [Table.find?, has, same, ih]

/-- At a name that only the catalog has, the result holds what is kept of the value there. -/
theorem find?_arrange_unknown {path : String} {existing : Entries} {entries : Tree.Entries Leaf}
    (distinct : (Table.names entries).Nodup) (names : (Table.names existing).Nodup) {name : String}
    (lacks : Table.find? name entries = none) :
    Table.find? name (merge.arrange path (level merge path existing entries)) =
      (Table.find? name existing).bind (merge.unused? (merge.policy.join path name)) := by
  have perm := arrange_perm merge path (level merge path existing entries)
  have arranged := (perm.map Prod.fst).nodup_iff.mpr (nodup_names_level merge distinct names)
  have unknown : (Table.names (Merge.unknown entries existing)).Nodup := names.sublist (List.filter_sublist.map Prod.fst)
  rw [← find?_unknown lacks existing, ← find?_unusedEntries merge unknown]
  ext value
  rw [Table.find?_eq_some_iff arranged, Table.find?_eq_some_iff (unknown.sublist (names_unusedEntries merge path _)),
    perm.mem_iff, level, List.mem_append, or_iff_right]
  intro ofTree
  have known := has_of_mem_treeEntries merge ofTree
  simp [Table.has, lacks] at known

theorem treeValue_eq_copy {path : String} (copied : merge.copies path = true) (value : Value) (tree : Tree Leaf) :
    merge.treeValue path (some value) tree = value := by
  cases tree <;> simp [Merge.treeValue, copied, Option.filter]

theorem treeValue_leaf {path : String} {existing : Option Value}
    (made : existing.filter (fun _ => merge.copies path) = none) (leaf : Leaf) :
    merge.treeValue path existing (.leaf leaf) = merge.leafValue path leaf existing := by
  rw [Merge.treeValue, made]

theorem treeValue_branch {path : String} {existing : Option Value}
    (made : existing.filter (fun _ => merge.copies path) = none) (entries : Tree.Entries Leaf) :
    merge.treeValue path existing (.branch entries) =
      .object (merge.arrange path (level merge path ((existing.map Value.entries).getD []) entries)) := by
  rw [Merge.treeValue, made]
  rfl

end Phrasebook.Proofs.MergeLevels
