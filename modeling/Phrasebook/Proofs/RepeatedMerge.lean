import Phrasebook.Proofs.MergeLevels

/-! A merge into its own result changes nothing, not even the order of entries. Below a tree's own names a level of
the result holds what is kept of the catalog, and what is kept once is kept again; in front of them the values of
the tree decide alike when they are met as existing ones. -/

namespace Phrasebook.Proofs.RepeatedMerge

open Catalog MergeLevels

variable (merge : Merge)

theorem unusedEntries_eq_self {path : String} {entries : Entries}
    (kept : ∀ entry ∈ entries, merge.unused? (merge.policy.join path entry.1) entry.2 = some entry.2) :
    merge.unusedEntries path entries = entries := by
  induction entries with
  | nil => rfl
  | cons entry rest ih =>
    obtain ⟨segment, value⟩ := entry
    rw [Merge.unusedEntries, kept (segment, value) List.mem_cons_self]
    exact congrArg _ (ih fun other member => kept other (List.mem_cons_of_mem _ member))

/-- What is kept of a value that only the catalog knows is kept as a whole. -/
theorem unused?_again (value : Value) : ∀ (path : String) (kept : Value),
    merge.unused? path value = some kept → merge.unused? path kept = some kept := by
  induction value using Value.induction with
  | object entries ih =>
    intro path kept found
    rw [Merge.unused?] at found
    split at found
    next whole =>
      obtain rfl := Option.some.inj found
      rw [Merge.unused?, if_pos whole]
    next parts =>
      have again : ∀ entry ∈ merge.unusedEntries path entries,
          merge.unused? (merge.policy.join path entry.1) entry.2 = some entry.2 := by
        intro entry member
        obtain ⟨old, inside, keeps⟩ := mem_unusedEntries merge member
        exact ih _ inside _ _ keeps
      split at found
      · cases found
      next some _ =>
        obtain rfl := Option.some.inj found
        rw [Merge.unused?, if_neg parts, unusedEntries_eq_self merge again]
        simp_all
  | null | truth _ | whole _ | real _ | text _ | list _ _ =>
    intro path kept found
    simp only [Merge.unused?, Option.ite_none_right_eq_some] at found
    obtain ⟨keeps, same⟩ := found
    obtain rfl := Option.some.inj same
    simp only [Merge.unused?, keeps, ite_true]

/-- The text that a leaf gets once stays when it is met as an existing one. -/
theorem leafValue_again (path : String) (leaf : Leaf) (existing : Option Value) :
    merge.leafValue path leaf (some (merge.leafValue path leaf existing)) = merge.leafValue path leaf existing := by
  cases keeps : merge.keepsText leaf with
  | false => rw [Merge.leafValue_eq_newValue keeps, Merge.leafValue_eq_newValue keeps]
  | true =>
    rw [Merge.leafValue_eq_getD keeps, Merge.leafValue_eq_getD keeps]
    cases found : Merge.textAt? existing with
    | none =>
      rw [Option.getD_none, Merge.textAt?_some]
      split <;> rfl
    | some value =>
      have isText : value.isObject = false := by simpa using (Option.filter_eq_some_iff.mp found).2
      simp [Merge.textAt?_some, isText]

theorem level_again {path : String} {existing : Entries} {entries : Tree.Entries Leaf}
    (distinct : (Table.names entries).Nodup)
    (again : ∀ entry ∈ entries, ∀ path existing,
      merge.treeValue path (some (merge.treeValue path existing entry.2)) entry.2 =
        merge.treeValue path existing entry.2) :
    merge.arrange path (level merge path (merge.arrange path (level merge path existing entries)) entries) =
      merge.arrange path (level merge path existing entries) := by
  have made : merge.treeEntries path (merge.arrange path (level merge path existing entries)) entries =
      merge.treeEntries path existing entries := by
    apply treeEntries_congr
    intro entry member
    rw [find?_arrange_level merge distinct member]
    exact again entry member _ _
  -- what the tree does not know of the result was kept before, and is kept again as it is
  have kept : merge.unusedEntries path
      (Merge.unknown entries (merge.arrange path (level merge path existing entries))) =
        Merge.unknown entries (merge.arrange path (level merge path existing entries)) := by
    apply unusedEntries_eq_self
    intro entry member
    obtain ⟨inside, unknown⟩ := List.mem_filter.mp member
    rcases mem_of_mem_arrange merge inside with ofTree | kept
    · simp [has_of_mem_treeEntries merge ofTree] at unknown
    · obtain ⟨value, _, keeps⟩ := mem_unusedEntries merge kept
      exact unused?_again merge value _ _ keeps
  rw [level, made, kept]
  apply StableSorting.arrange_append_filter
  · intro entry member
    simp [has_of_mem_treeEntries merge member]
  · intro entry member
    simp [has_of_mem_unusedEntries merge member]

/-- What a tree makes of a value stays when it is met as an existing value. -/
theorem treeValue_again (tree : Tree Leaf) : tree.Distinct → ∀ (path : String) (existing : Option Value),
    merge.treeValue path (some (merge.treeValue path existing tree)) tree = merge.treeValue path existing tree := by
  induction tree using Tree.induction with
  | leaf leaf =>
    intro _ path existing
    cases copied : merge.copies path with
    | true => exact treeValue_eq_copy merge copied _ _
    | false =>
      have made (value : Option Value) : value.filter (fun _ => merge.copies path) = none := by simp [copied]
      rw [treeValue_leaf merge (made _), treeValue_leaf merge (made _), leafValue_again]
  | branch entries ih =>
    intro distinct path existing
    cases copied : merge.copies path with
    | true => exact treeValue_eq_copy merge copied _ _
    | false =>
      have made (value : Option Value) : value.filter (fun _ => merge.copies path) = none := by simp [copied]
      rw [treeValue_branch merge (made _), treeValue_branch merge (made _)]
      refine congrArg Value.object (level_again merge distinct.names ?_)
      exact fun entry member => ih entry member (distinct.inside entry member)

theorem content_content (existing : Entries) : merge.content (merge.content existing) = merge.content existing :=
  level_again merge merge.built.distinct.names fun entry member =>
    treeValue_again merge entry.2 (merge.built.distinct.inside entry member)

/-- Bringing a catalog in line with a tree a second time changes nothing, at no level and in no order. -/
theorem reconcile_reconcile (built : Built) (existing : Option Value) (locale : String) (isPrimary : Bool)
    (policy : Policy) :
    reconcile built (some (.object (reconcile built existing locale isPrimary policy))) locale isPrimary policy =
      reconcile built existing locale isPrimary policy :=
  content_content ⟨built, locale, isPrimary, policy⟩ _

end Phrasebook.Proofs.RepeatedMerge
