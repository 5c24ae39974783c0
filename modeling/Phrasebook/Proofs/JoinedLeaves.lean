import Mathlib.Data.List.Induction
import Phrasebook.Tree.Build

/-! What the leaf of a path is made of: of the leaves that keys ask for under it, and of nothing else. Its text is that
of the first deciding leaf; those from the source decide, and all of them where the source gives none. -/

namespace Phrasebook.Proofs.JoinedLeaves

open Built

def asked (path : String) (entries : List (String × Leaf)) : List Leaf :=
  (entries.filter fun entry => entry.1 = path).map Prod.snd

/-- Of the leaves for one path, those that decide about its text. -/
def deciding (leaves : List Leaf) : List Leaf :=
  if leaves.any Leaf.explicit then leaves.filter Leaf.explicit else leaves

/-- The leaf of a path, made of those that are asked for. -/
def joined? (path : String) (leaves : List Leaf) : Option Leaf :=
  (deciding leaves).head?.map fun leaf =>
    { key := path
      defaultValue := leaf.defaultValue
      explicit := leaves.any Leaf.explicit
      isOpaque := leaves.any Leaf.isOpaque }

theorem deciding_ne_nil {leaves : List Leaf} (some : leaves ≠ []) : deciding leaves ≠ [] := by
  unfold deciding
  split
  next given =>
    obtain ⟨leaf, member, explicit⟩ := List.any_eq_true.mp given
    exact List.ne_nil_of_mem (List.mem_filter.mpr ⟨member, explicit⟩)
  next => exact some

theorem deciding_append (leaves : List Leaf) (leaf : Leaf) :
    deciding (leaves ++ [leaf]) =
      if leaf.explicit && !leaves.any Leaf.explicit then [leaf]
      else if leaf.explicit || !leaves.any Leaf.explicit then deciding leaves ++ [leaf]
      else deciding leaves := by
  cases given : leaves.any Leaf.explicit with
  | true => cases mark : leaf.explicit <;> simp [deciding, given, mark]
  | false =>
    have none : leaves.filter Leaf.explicit = [] := by simpa using given
    cases mark : leaf.explicit <;> simp [deciding, given, mark, none]

theorem joined?_append {path : String} {leaf : Leaf} (named : leaf.key = path) (leaves : List Leaf) :
    joined? path (leaves ++ [leaf]) =
      some (((joined? path leaves).map fun known => joinLeaf path known leaf).getD leaf) := by
  by_cases empty : leaves = []
  · subst empty
    subst named
    cases mark : leaf.explicit <;> simp [joined?, deciding, mark] <;> rw [← mark]
  · obtain ⟨first, rest, decided⟩ := List.exists_cons_of_ne_nil (deciding_ne_nil empty)
    cases given : leaves.any Leaf.explicit <;> cases mark : leaf.explicit <;>
      simp [joined?, deciding_append, joinLeaf, given, mark, decided]

theorem find?_addLeaf (path : String) (leaves : List (String × Leaf)) (entry : String × Leaf) :
    Table.find? path (addLeaf leaves entry) =
      if entry.1 = path then
        some (((Table.find? path leaves).map fun known => joinLeaf path known entry.2).getD entry.2)
      else Table.find? path leaves := by
  by_cases same : entry.1 = path
  · subst same
    cases found : Table.find? entry.1 leaves <;> simp [addLeaf, found]
  · cases found : Table.find? entry.1 leaves <;> simp [addLeaf, found, same, Table.find?_put_other (Ne.symm same)]

theorem find?_foldl_addLeaf {entries : List (String × Leaf)} (named : ∀ entry ∈ entries, entry.2.key = entry.1)
    (path : String) : Table.find? path (entries.foldl addLeaf []) = joined? path (asked path entries) := by
  induction entries using List.reverseRecOn with
  | nil => rfl
  | append_singleton entries entry ih =>
    rw [List.foldl_append, List.foldl_cons, List.foldl_nil, find?_addLeaf,
      ih fun other member => named other (List.mem_append_left _ member)]
    by_cases same : entry.1 = path
    · have leafNamed := (named entry (List.mem_append_right _ (List.mem_singleton_self entry))).trans same
      simp [asked, same, joined?_append leafNamed]
    · simp [asked, same]

theorem key_of_mem_leavesOf {settings : Settings} {locale : String} {key : Key} {entry : String × Leaf}
    (member : entry ∈ leavesOf settings locale key) : entry.2.key = entry.1 := by
  unfold leavesOf at member
  split at member
  · rw [List.mem_singleton.mp member]
  · obtain ⟨variant, _, rfl⟩ := List.mem_map.mp member
    rfl

/-- The leaf of a path is joined from what the keys ask for under it. -/
theorem find?_leaves (settings : Settings) (locale : String) (keys : List Key) (path : String) :
    Table.find? path (leaves settings locale keys) =
      joined? path (asked path (keys.flatMap (leavesOf settings locale))) := by
  apply find?_foldl_addLeaf
  intro entry member
  obtain ⟨key, _, inside⟩ := List.mem_flatMap.mp member
  exact key_of_mem_leavesOf inside

theorem joined?_eq_none_iff {path : String} {leaves : List Leaf} : joined? path leaves = none ↔ leaves = [] := by
  rw [joined?, Option.map_eq_none_iff, List.head?_eq_none_iff]
  constructor
  · intro empty
    by_contra some
    exact deciding_ne_nil some empty
  · rintro rfl
    rfl

theorem key_of_mem_leaves {settings : Settings} {locale : String} {keys : List Key} {path : String} {leaf : Leaf}
    (member : (path, leaf) ∈ leaves settings locale keys) : leaf.key = path := by
  have found := (Table.find?_eq_some_iff (nodup_names_leaves settings locale keys)).mpr member
  rw [find?_leaves] at found
  obtain ⟨first, _, rfl⟩ := Option.map_eq_some_iff.mp found
  rfl

theorem asked_eq_nil_iff {path : String} {entries : List (String × Leaf)} :
    asked path entries = [] ↔ path ∉ Table.names entries := by
  simp only [asked, List.map_eq_nil_iff, List.filter_eq_nil_iff, decide_eq_true_eq]
  constructor
  · intro none inside
    obtain ⟨entry, member, same⟩ := List.mem_map.mp inside
    exact none entry member same
  · intro absent entry member same
    exact absent (same ▸ List.mem_map_of_mem member)

theorem mem_names_leaves {settings : Settings} {locale : String} {keys : List Key} {path : String} :
    path ∈ Table.names (leaves settings locale keys) ↔
      ∃ key ∈ keys, path ∈ Table.names (leavesOf settings locale key) := by
  rw [← not_iff_not, ← Table.find?_eq_none_iff, find?_leaves, joined?_eq_none_iff, asked_eq_nil_iff, Table.names,
    List.map_flatMap, List.mem_flatMap]
  rfl

/-- Only keys that stand for whole objects make leaves that do. -/
theorem isOpaque_of_mem_leaves {settings : Settings} {locale : String} {keys : List Key}
    (plain : ∀ key ∈ keys, key.isOpaque = false) {entry : String × Leaf}
    (member : entry ∈ leaves settings locale keys) : entry.2.isOpaque = false := by
  have found := (Table.find?_eq_some_iff (nodup_names_leaves settings locale keys)).mpr member
  rw [find?_leaves] at found
  obtain ⟨first, _, same⟩ := Option.map_eq_some_iff.mp found
  rw [← same, List.any_eq_false]
  intro leaf inside
  obtain ⟨other, otherMember, rfl⟩ := List.mem_map.mp inside
  obtain ⟨key, keyMember, asks⟩ := List.mem_flatMap.mp (List.mem_filter.mp otherMember).1
  unfold leavesOf at asks
  split at asks
  · rw [List.mem_singleton.mp asks]
    simp [plain key keyMember]
  · obtain ⟨variant, _, rfl⟩ := List.mem_map.mp asks
    simp

def leavesIn (settings : Settings) (namespaceName locale : String) (keys : List Key) : List (String × Leaf) :=
  leaves settings locale (keys.filter fun key => key.namespaceName = namespaceName)

theorem nodup_names_leavesIn {settings : Settings} {namespaceName locale : String} {keys : List Key} :
    (Table.names (leavesIn settings namespaceName locale keys)).Nodup :=
  nodup_names_leaves _ _ _

end Phrasebook.Proofs.JoinedLeaves
