import Phrasebook.Proofs.LeafValues
import Phrasebook.Proofs.UnclaimedValues

/-! Where a run puts one single value of the primary locale in the place of another. A value that no leaf asks for stays
or goes as it is, and a leaf that takes the place of an object leaves nothing below it; so the new value is the text of a
leaf that has it from the source, and the run was asked to replace texts. -/

namespace Phrasebook

/-- Whether one value has a single value in the place of a different one that the other value has there. -/
structure Replaced (before after : Catalog.Value) (place : List String) (new : Catalog.Value) : Prop where
  held : ∃ old, before.at? place = some old ∧ old.isObject = false ∧ new ≠ old
  made : after.at? place = some new
  single : new.isObject = false

namespace Replaced

open Catalog

variable {before after new : Value} {entries others : Entries} {place : List String}

theorem changed (replaced : Replaced before after place new) : after.at? place ≠ before.at? place := by
  obtain ⟨⟨old, held, -, different⟩, made, -⟩ := replaced
  rw [made, held]
  exact fun same => different (Option.some.inj same)

theorem somewhere (replaced : Replaced before (.object entries) place new) : place ≠ [] := by
  rintro rfl
  obtain rfl := Option.some.inj replaced.made
  cases replaced.single

/-- A value is replaced in the one that has its place, under the first name on the way to it. -/
theorem below {name : String} {rest : List String}
    (replaced : Replaced (.object entries) (.object others) (name :: rest) new) :
    ∃ outer top, Table.find? name entries = some outer ∧ Table.find? name others = some top ∧
      Replaced outer top rest new := by
  obtain ⟨⟨old, held, different⟩, made, single⟩ := replaced
  obtain ⟨outer, found, heldBelow⟩ := Option.bind_eq_some_iff.mp held
  obtain ⟨top, foundTop, madeBelow⟩ := Option.bind_eq_some_iff.mp made
  exact ⟨outer, top, found, foundTop, ⟨old, heldBelow, different⟩, madeBelow, single⟩

/-- Where the result is an object, what is replaced lies among the entries of the value before. -/
theorem entries_of (replaced : Replaced before (.object entries) place new) :
    Replaced (.object before.entries) (.object entries) place new := by
  obtain ⟨old, held, different⟩ := replaced.held
  have inside := (Proofs.MergedPlaces.at?_known replaced.somewhere (some before)).trans held
  exact ⟨⟨old, inside, different⟩, replaced.made, replaced.single⟩

end Replaced

namespace Proofs.ReplacedValues

open Catalog CatalogPairs LeafValues MergedPlaces Places Pruning UnclaimedValues

variable {existing : Entries} {place : List String} {new : Value}

section Merges

variable {merge : Merge}

/-- Values on the way to a change are the merge's own. -/
theorem own_of_changed {way rest : List String} (known : (Tree.at? way (.branch merge.built.entries)).isSome = true)
    (changed : (Value.object (merge.content existing)).at? (way ++ rest) ≠ (Value.object existing).at? (way ++ rest)) :
    ∀ above, above <+: way → above ≠ [] → ¬ Taken merge "" existing above :=
  fun _ before some taken => changed (at?_merged_below_taken merge merge.built.distinct known before some taken rest)

/-- Below a leaf nothing is put in the place of anything: what is there is taken over, or the text of the leaf is. -/
theorem not_replaced_below_leaf (primary : merge.isPrimary = true) {above rest : List String} {leaf : Leaf}
    (asks : Tree.leafAt? above (.branch merge.built.entries) = some leaf) (below : rest ≠ []) :
    ¬ Replaced (.object existing) (.object (merge.content existing)) (above ++ rest) new := by
  intro replaced
  obtain ⟨next, others, rfl⟩ := List.exists_cons_of_ne_nil below
  rcases at?_content merge asks existing with ⟨whole, here⟩ | ⟨-, same⟩
  · obtain ⟨⟨old, held, -⟩, made, -⟩ := replaced
    rw [Value.at?_append] at held made
    obtain ⟨outer, found, heldBelow⟩ := Option.bind_eq_some_iff.mp held
    cases outer with
    | object entries =>
      have text : merge.leafValue whole leaf (some (.object entries)) = .text leaf.defaultValue := if_pos primary
      rw [here, found, text] at made
      cases made
    | _ => cases heldBelow
  · apply replaced.changed
    rw [Value.at?_append, Value.at?_append, same]

/-- Where the tree has a branch there is an object afterwards, or what was there before. -/
theorem not_replaced_at_branch {inner : Tree.Entries Leaf}
    (leads : Tree.at? place (.branch merge.built.entries) = some (.branch inner)) :
    ¬ Replaced (.object existing) (.object (merge.content existing)) place new := by
  intro replaced
  have changed := replaced.changed
  rw [← List.append_nil place] at changed
  have own := own_of_changed (Option.isSome_of_mem leads) changed
  have made := at?_merged_append merge merge.built.distinct leads own []
  rw [List.append_nil] at made
  obtain rfl := Option.some.inj (replaced.made.symm.trans made)
  cases replaced.single

/-- Where a place leaves the tree, a value stays as it is or goes. -/
theorem not_replaced_of_left (distinct : (Value.object existing).Distinct) {way rest : List String} {name : String}
    {inner : Tree.Entries Leaf} (leads : Tree.at? way (.branch merge.built.entries) = some (.branch inner))
    (lacks : Table.find? name inner = none) :
    ¬ Replaced (.object existing) (.object (merge.content existing)) (way ++ name :: rest) new := by
  intro replaced
  have own := own_of_changed (Option.isSome_of_mem leads) replaced.changed
  have kept := at?_merged_of_left merge merge.built.distinct distinct leads lacks own rest
  obtain ⟨⟨old, held, single, different⟩, made, -⟩ := replaced
  rw [List.append_cons, Value.at?_append] at held
  obtain ⟨outer, found, heldBelow⟩ := Option.bind_eq_some_iff.mp held
  rw [found, Option.bind_some] at kept
  obtain ⟨stays, goes⟩ := at?_unused?_single merge (distinct.of_at? found) heldBelow single
  by_cases speaks : Kept merge (merge.policy.pathBelow "" (way ++ [name])) rest
  · exact different (Option.some.inj (made.symm.trans (kept.trans (stays speaks))))
  · cases made.symm.trans (kept.trans (goes speaks))

/-- At a leaf a text is put in the place of another one when the source gives it and the run is asked for that. -/
theorem replaced_at_leaf (primary : merge.isPrimary = true) {leaf : Leaf}
    (asks : Tree.leafAt? place (.branch merge.built.entries) = some leaf)
    (replaced : Replaced (.object existing) (.object (merge.content existing)) place new) :
    merge.policy.syncPrimary = true ∧ leaf.explicit = true ∧ new = .text leaf.defaultValue := by
  rcases at?_content merge asks existing with ⟨whole, here⟩ | ⟨-, same⟩
  · obtain ⟨⟨old, held, single, different⟩, made, -⟩ := replaced
    obtain rfl := Option.some.inj (made.symm.trans here)
    rw [held] at different ⊢
    cases keeps : merge.keepsText leaf with
    | true =>
      refine absurd ?_ different
      rw [Merge.leafValue_eq_getD keeps, Merge.textAt?_some, if_neg (by simp [single]), Option.getD_some]
    | false =>
      rw [Merge.keepsText, if_pos primary, Bool.not_eq_false', Bool.and_eq_true] at keeps
      refine ⟨keeps.1, keeps.2, ?_⟩
      rw [Merge.leafValue_eq_newValue (by simp [Merge.keepsText, primary, keeps]), Merge.newValue, if_pos primary]
  · exact absurd same replaced.changed

theorem leaf_of_replaced (primary : merge.isPrimary = true) (distinct : (Value.object existing).Distinct)
    (replaced : Replaced (.object existing) (.object (merge.content existing)) place new) :
    merge.policy.syncPrimary = true ∧ ∃ leaf, Tree.leafAt? place (.branch merge.built.entries) = some leaf ∧
      leaf.explicit = true ∧ new = .text leaf.defaultValue := by
  have free (above : List String) (before : above <+: place) (different : above ≠ place) :
      Tree.leafAt? above (.branch merge.built.entries) = none := by
    refine Option.eq_none_iff_forall_ne_some.mpr fun leaf asks => ?_
    obtain ⟨rest, rfl⟩ := before
    exact not_replaced_below_leaf primary asks (by simpa using different) replaced
  rcases at?_cases free with known | ⟨way, name, rest, inner, rfl, leads, lacks⟩
  · obtain ⟨tree, found⟩ := Option.isSome_iff_exists.mp known
    cases tree with
    | branch inner => exact absurd replaced (not_replaced_at_branch found)
    | leaf leaf =>
      have asks := leafAt?_eq_some_iff.mpr found
      obtain ⟨sync, rest⟩ := replaced_at_leaf primary asks replaced
      exact ⟨sync, leaf, asks, rest⟩
  · exact absurd replaced (not_replaced_of_left distinct leads lacks)

end Merges

section Updates

variable {update : Update} {locale : String}

theorem isPrimary_merge (primary : locale = update.settings.primaryLanguage) (built : Built) :
    (update.merge locale built).isPrimary = true := beq_iff_eq.mpr primary

/-- In a namespace that no key is in, no value is put in the place of another. -/
theorem not_replaced_in_idle (primary : locale = update.settings.primaryLanguage) {name : String} {value kept : Value}
    (distinct : value.Distinct) (keeps : update.idleNamespace? locale name value = some kept) :
    ¬ Replaced value kept place new := by
  intro replaced
  rw [Update.idleNamespace?] at keeps
  split at keeps
  · obtain rfl := Option.some.inj keeps
    exact replaced.changed rfl
  · split at keeps
    · cases keeps
    · obtain rfl := Option.some.inj keeps
      obtain ⟨-, leaf, asks, -⟩ := leaf_of_replaced (isPrimary_merge primary _) distinct.entries replaced.entries_of
      cases (leafAt?_empty place).symm.trans asks

/-- What a catalog of the primary locale becomes has another value in the place of one only at a leaf of its trees. -/
theorem leaf_of_become (primary : locale = update.settings.primaryLanguage) {namespaceName : Option String}
    (distinct : (Value.object existing).Distinct)
    (replaced : Replaced (.object existing) (.object (become update (locale, namespaceName) existing)) place new) :
    update.sync.primary = true ∧ ∃ leaf, Tree.leafAt? place (.branch (claims update locale namespaceName)) = some leaf ∧
      leaf.explicit = true ∧ new = .text leaf.defaultValue := by
  cases namespaceName with
  | some name => exact leaf_of_replaced (isPrimary_merge primary _) distinct replaced
  | none =>
    obtain ⟨name, rest, rfl⟩ := List.exists_cons_of_ne_nil replaced.somewhere
    obtain ⟨outer, top, found, made, below⟩ := replaced.below
    have distinctOuter := distinct.inside _ (Table.mem_of_find? found)
    cases inUse : Table.find? name update.groups with
    | none =>
      have idle : Table.find? name (update.sharedContent locale existing) = update.idleNamespace? locale name outer := by
        rw [find?_sharedContent_idle distinct.names inUse, found, Option.bind_some]
      exact absurd below (not_replaced_in_idle primary distinctOuter (idle.symm.trans made))
    | some keys =>
      have inside : Update.entriesIn existing name = outer.entries := by
        rw [Update.entriesIn, found, Option.map_some, Option.getD_some]
      obtain rfl := Option.some.inj (made.symm.trans (find?_sharedContent_used inUse))
      rw [inside] at below
      obtain ⟨sync, leaf, asks, given⟩ :=
        leaf_of_replaced (isPrimary_merge primary _) distinctOuter.entries below.entries_of
      refine ⟨sync, leaf, ?_, given⟩
      rw [leafAt?_cons_branch, find?_claims_none, inUse]
      exact asks

end Updates

end Proofs.ReplacedValues

end Phrasebook
