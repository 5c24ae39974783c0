import Mathlib.Data.List.Nodup
import Phrasebook.Proofs.MergeLevels
import Phrasebook.Proofs.Places

/-! Where names are sorted, a merge depends on which leaves its tree has at which places and on nothing else about the
tree. Two trees that hold the same leaves have the same names at every level, in orders of their own, and sorting
brings these together. -/

namespace Phrasebook.Proofs.SortedMerge

open Catalog MergeLevels Places

/-- Merges that decide alike about every path, whatever their trees are. -/
structure Alike (first second : Merge) : Prop where
  policy : first.policy = second.policy
  locale : first.locale = second.locale
  isPrimary : first.isPrimary = second.isPrimary
  namespaceName : first.built.namespaceName = second.built.namespaceName
  opaquePaths : ∀ path, path ∈ first.built.opaquePaths ↔ path ∈ second.built.opaquePaths
  pluralBases : ∀ path, path ∈ first.built.pluralBases ↔ path ∈ second.built.pluralBases
  contextBases : ∀ path, path ∈ first.built.contextBases ↔ path ∈ second.built.contextBases

theorem contains_congr {first second : List String} (same : ∀ path, path ∈ first ↔ path ∈ second) (path : String) :
    first.contains path = second.contains path := by
  rw [Bool.eq_iff_iff, List.contains_iff_mem, List.contains_iff_mem, same]

theorem any_congr {first second : List String} (same : ∀ path, path ∈ first ↔ path ∈ second) (test : String → Bool) :
    first.any test = second.any test := by
  rw [Bool.eq_iff_iff, List.any_eq_true, List.any_eq_true]
  simp only [same]

namespace Alike

variable {first second : Merge}

theorem preserves (alike : Alike first second) (path : String) : first.preserves path = second.preserves path := by
  rw [Merge.preserves, Merge.preserves, alike.policy, alike.namespaceName]

theorem copies (alike : Alike first second) (path : String) : first.copies path = second.copies path := by
  rw [Merge.copies, Merge.copies, alike.preserves, contains_congr alike.opaquePaths]

theorem keepsUnused (alike : Alike first second) (path : String) :
    first.keepsUnused path = second.keepsUnused path := by
  simp only [Merge.keepsUnused, alike.policy, contains_congr alike.pluralBases, any_congr alike.contextBases]

theorem leafValue (alike : Alike first second) (path : String) (leaf : Leaf) (existing : Option Value) :
    first.leafValue path leaf existing = second.leafValue path leaf existing := by
  simp only [Merge.leafValue, Merge.keepsText, Merge.newValue, Merge.request, alike.policy, alike.isPrimary,
    alike.locale, alike.namespaceName]

theorem unusedEntries_congr (alike : Alike first second) {path : String} {entries : Entries}
    (same : ∀ entry ∈ entries, ∀ path, first.unused? path entry.2 = second.unused? path entry.2) :
    first.unusedEntries path entries = second.unusedEntries path entries := by
  induction entries with
  | nil => rfl
  | cons entry rest ih =>
    rw [Merge.unusedEntries, Merge.unusedEntries, alike.policy, same entry List.mem_cons_self,
      ih fun other member => same other (List.mem_cons_of_mem _ member)]

theorem unused? (alike : Alike first second) (value : Value) :
    ∀ path, first.unused? path value = second.unused? path value := by
  induction value using Value.induction with
  | object entries ih =>
    intro path
    rw [Merge.unused?, Merge.unused?, alike.preserves, alike.policy, alike.unusedEntries_congr ih]
  | null | truth _ | whole _ | real _ | text _ | list _ _ =>
    intro path
    simp only [Merge.unused?, alike.preserves, alike.policy, alike.keepsUnused]

theorem unusedEntries (alike : Alike first second) (path : String) (entries : Entries) :
    first.unusedEntries path entries = second.unusedEntries path entries :=
  alike.unusedEntries_congr fun entry _ => alike.unused? entry.2

end Alike

section Level

variable {first second : Merge} {entries others : Tree.Entries Leaf}

theorem names_of_leafAt? (full : ∀ entry ∈ entries, entry.2.Full)
    (same : ∀ place, Tree.leafAt? place (.branch entries) = Tree.leafAt? place (.branch others)) {name : String}
    (member : name ∈ Table.names entries) : name ∈ Table.names others := by
  obtain ⟨tree, found⟩ := Option.isSome_iff_exists.mp (Table.has_iff.mpr member)
  obtain ⟨place, leaf, held⟩ := exists_leafAt? (full _ (Table.mem_of_find? found))
  have there := same (name :: place)
  rw [leafAt?_cons_branch, leafAt?_cons_branch, found, Option.bind_some, held] at there
  obtain ⟨other, otherFound, _⟩ := Option.bind_eq_some_iff.mp there.symm
  exact Table.has_iff.mp (Option.isSome_iff_exists.mpr ⟨other, otherFound⟩)

theorem has_of_leafAt? (full : ∀ entry ∈ entries, entry.2.Full) (otherFull : ∀ entry ∈ others, entry.2.Full)
    (same : ∀ place, Tree.leafAt? place (.branch entries) = Tree.leafAt? place (.branch others)) (name : String) :
    Table.has name entries = Table.has name others := by
  rw [Bool.eq_iff_iff, Table.has_iff, Table.has_iff]
  exact ⟨names_of_leafAt? full same, names_of_leafAt? otherFull fun place => (same place).symm⟩

theorem leafAt?_inside {name : String} {tree other : Tree Leaf}
    (same : ∀ place, Tree.leafAt? place (.branch entries) = Tree.leafAt? place (.branch others))
    (found : Table.find? name entries = some tree) (otherFound : Table.find? name others = some other)
    (place : List String) : Tree.leafAt? place tree = Tree.leafAt? place other := by
  simpa [found, otherFound] using same (name :: place)

theorem find?_treeEntries (merge : Merge) (path : String) (existing : Entries) (entries : Tree.Entries Leaf)
    (name : String) :
    Table.find? name (merge.treeEntries path existing entries) =
      (Table.find? name entries).map fun tree =>
        merge.treeValue (merge.policy.join path name) (Table.find? name existing) tree := by
  induction entries with
  | nil => rfl
  | cons entry rest ih =>
    obtain ⟨other, tree⟩ := entry
    by_cases same : other = name
    · subst same
      simp [Merge.treeEntries, Table.find?]
    · simp [Merge.treeEntries, Table.find?, same, ih]

theorem perm_of_find? {α : Type} {first second : List (String × α)} (distinct : (Table.names first).Nodup)
    (otherDistinct : (Table.names second).Nodup)
    (same : ∀ name, Table.find? name first = Table.find? name second) : first.Perm second := by
  rw [List.perm_ext_iff_of_nodup (List.Nodup.of_map _ distinct) (List.Nodup.of_map _ otherDistinct)]
  rintro ⟨name, value⟩
  rw [← Table.find?_eq_some_iff distinct, ← Table.find?_eq_some_iff otherDistinct, same]

/-- A sorted level depends on the leaves of its tree, when what is below its names does. -/
theorem arrange_level_eq (alike : Alike first second) (sorted : first.policy.order = .ascending)
    (distinct : (Tree.branch entries).Distinct) (otherDistinct : (Tree.branch others).Distinct)
    (full : ∀ entry ∈ entries, entry.2.Full) (otherFull : ∀ entry ∈ others, entry.2.Full)
    (same : ∀ place, Tree.leafAt? place (.branch entries) = Tree.leafAt? place (.branch others)) (path : String)
    (existing : Entries)
    (below : ∀ name tree other, Table.find? name entries = some tree → Table.find? name others = some other →
      ∀ path existing, first.treeValue path existing tree = second.treeValue path existing other) :
    first.arrange path (level first path existing entries) = second.arrange path (level second path existing others) := by
  have hasSame := has_of_leafAt? full otherFull same
  have unknown : Merge.unknown entries existing = Merge.unknown others existing := by
    simp only [Merge.unknown, hasSame]
  have made : (first.treeEntries path existing entries).Perm (second.treeEntries path existing others) := by
    apply perm_of_find?
    · simpa using distinct.names
    · simpa using otherDistinct.names
    intro name
    rw [find?_treeEntries, find?_treeEntries, alike.policy]
    have both := hasSame name
    cases found : Table.find? name entries <;> cases otherFound : Table.find? name others <;>
      simp only [Table.has, found, otherFound, Option.isSome_none, Option.isSome_some, reduceCtorEq] at both
    · rfl
    · exact congrArg some (below _ _ _ found otherFound _ _)
  -- no two of them compare alike, so sorting takes them in whatever order they come
  have apart : (first.treeEntries path existing entries).Pairwise fun entry other =>
      StableSorting.alike (fun first second => decide (first.1 ≤ second.1)) entry other = false := by
    have names := distinct.names
    rw [← names_treeEntries first path existing entries, Table.names, List.Nodup, List.pairwise_map] at names
    refine names.imp fun {entry other} different => ?_
    rw [← Bool.not_eq_true, StableSorting.alike_names]
    exact different
  simp only [Merge.arrange, ← alike.policy, sorted, Order.arrange, level, unknown, alike.unusedEntries]
  exact StableSorting.lawful_names.mergeSort_append_perm made apart _

end Level

/-- Trees with the same leaves at the same places make the same of a value. -/
theorem treeValue_eq {first second : Merge} (alike : Alike first second) (sorted : first.policy.order = .ascending)
    (tree : Tree Leaf) : ∀ other : Tree Leaf, tree.Distinct → other.Distinct → tree.Full → other.Full →
    (∀ place, Tree.leafAt? place tree = Tree.leafAt? place other) → ∀ path existing,
      first.treeValue path existing tree = second.treeValue path existing other := by
  induction tree using Tree.induction with
  | leaf leaf =>
    intro other _ _ _ _ same path existing
    cases other with
    | branch others => cases same []
    | leaf twin =>
      obtain rfl := Option.some.inj (same [])
      rw [Merge.treeValue, Merge.treeValue, alike.leafValue]
      simp only [alike.copies]
  | branch entries ih =>
    intro other distinct otherDistinct full otherFull same path existing
    cases other with
    | leaf twin => cases same []
    | branch others =>
      cases full with
      | branch _ full =>
      cases otherFull with
      | branch _ otherFull =>
      cases copied : existing.filter fun _ => first.copies path with
      | some value =>
        have otherCopied : (existing.filter fun _ => second.copies path) = some value := by
          simpa only [alike.copies] using copied
        rw [Merge.treeValue, Merge.treeValue, copied, otherCopied]
      | none =>
        rw [treeValue_branch first copied, treeValue_branch second (by simpa only [alike.copies] using copied)]
        refine congrArg Value.object (arrange_level_eq alike sorted distinct otherDistinct full otherFull same path _ ?_)
        intro name tree twin found otherFound
        have member := Table.mem_of_find? found
        have otherMember := Table.mem_of_find? otherFound
        exact ih _ member twin (distinct.inside _ member) (otherDistinct.inside _ otherMember) (full _ member)
          (otherFull _ otherMember) (leafAt?_inside same found otherFound)

/-- Merges whose trees hold the same leaves at the same places bring a catalog to the same content. -/
theorem content_eq_of_leafAt? {first second : Merge} (alike : Alike first second)
    (sorted : first.policy.order = .ascending) (full : ∀ entry ∈ first.built.entries, entry.2.Full)
    (otherFull : ∀ entry ∈ second.built.entries, entry.2.Full)
    (same : ∀ place, Tree.leafAt? place (.branch first.built.entries) = Tree.leafAt? place (.branch second.built.entries))
    (existing : Entries) : first.content existing = second.content existing := by
  have distinct := first.built.distinct
  have otherDistinct := second.built.distinct
  refine arrange_level_eq alike sorted distinct otherDistinct full otherFull same "" existing ?_
  intro name tree twin found otherFound
  have member := Table.mem_of_find? found
  have otherMember := Table.mem_of_find? otherFound
  exact treeValue_eq alike sorted tree twin (distinct.inside _ member) (otherDistinct.inside _ otherMember)
    (full _ member) (otherFull _ otherMember) (leafAt?_inside same found otherFound)

end Phrasebook.Proofs.SortedMerge
