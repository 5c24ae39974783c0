import Phrasebook.Proofs.MergedPlaces

/-! Which value a merge gives to each leaf of a tree. As long as nothing on the way to its place is taken over, a leaf
keeps the text that the catalog has at that very place, unless the run is asked to replace it, and gets a new one where
the catalog has none. -/

namespace Phrasebook.Proofs.LeafValues

open Catalog MergeLevels MergedPlaces Places

/-- The value due at the place of a leaf. A text of the catalog stays, except that the primary locale takes the text of
the source where it is asked to and the source gives one, and every other locale its default where it is asked to. -/
def dueValue (built : Built) (existing : Option Value) (locale : String) (isPrimary : Bool) (policy : Policy)
    (place : List String) (leaf : Leaf) : Value :=
  let path := policy.pathOf place
  let resolved := policy.defaultSource.value
    { key := path
      namespaceName := built.namespaceName
      locale
      value := if leaf.defaultValue = "" then path else leaf.defaultValue }
  let fresh := if isPrimary then .text leaf.defaultValue else resolved
  let replaces := if isPrimary then policy.syncPrimary && leaf.explicit else policy.syncAll
  match existing.bind (Value.at? place) with
  | none | some (.object _) => fresh
  | some text => if replaces then fresh else text

theorem dueValue_eq (built : Built) (existing : Option Value) (locale : String) (isPrimary : Bool) (policy : Policy)
    (place : List String) (leaf : Leaf) :
    dueValue built existing locale isPrimary policy place leaf =
      Merge.leafValue ⟨built, locale, isPrimary, policy⟩ (policy.pathOf place) leaf
        (existing.bind (Value.at? place)) := by
  have replaces : (if isPrimary then policy.syncPrimary && leaf.explicit else policy.syncAll) =
      !Merge.keepsText ⟨built, locale, isPrimary, policy⟩ leaf := by
    cases isPrimary <;> simp [Merge.keepsText]
  simp only [dueValue, replaces]
  cases keeps : Merge.keepsText ⟨built, locale, isPrimary, policy⟩ leaf with
  | false =>
    rw [Merge.leafValue_eq_newValue keeps]
    split <;> rfl
  | true =>
    rw [Merge.leafValue_eq_getD keeps]
    cases existing.bind (Value.at? place) with
    | none => rfl
    | some value => cases value <;> rfl

variable (merge : Merge)

theorem at?_merged_leaf {path : String} {existing : Entries} {entries : Tree.Entries Leaf} {place : List String}
    {leaf : Leaf} (distinct : (Tree.branch entries).Distinct)
    (asks : Tree.leafAt? place (.branch entries) = some leaf)
    (own : ∀ above, above <+: place → above ≠ [] → ¬ Taken merge path existing above) :
    (merged merge path existing entries).at? place =
      some (merge.leafValue (merge.policy.pathBelow path place) leaf ((Value.object existing).at? place)) := by
  rcases place.eq_nil_or_concat' with rfl | ⟨way, name, rfl⟩
  · cases asks
  · rw [leafAt?_eq_some_iff, Tree.at?_append] at asks
    obtain ⟨inner, leads, asksHere⟩ := Option.bind_eq_some_iff.mp asks
    cases inner with
    | leaf other => cases asksHere
    | branch inner =>
      obtain ⟨_, known, same⟩ := Option.bind_eq_some_iff.mp asksHere
      obtain rfl := Option.some.inj same
      have made := made_of_not_taken merge fun taken =>
        own _ List.prefix_rfl (by simp) ((taken_append_iff merge way name []).mpr taken)
      rw [at?_merged_append merge distinct leads
          (fun above before => own above (before.trans (List.prefix_append _ _))),
        at?_merged_of_known merge (distinct.of_at? leads).names known, treeValue_leaf merge made,
        ← at?_entriesAt, at?_single, Policy.pathBelow_append]
      rfl

/-- The place of a leaf holds the value made for the leaf, or what the catalog has there. -/
theorem at?_content {leaf : Leaf} {place : List String}
    (asks : Tree.leafAt? place (.branch merge.built.entries) = some leaf) (existing : Entries) :
    (∃ whole, (Value.object (merge.content existing)).at? place =
      some (merge.leafValue whole leaf ((Value.object existing).at? place))) ∨
    existing ≠ [] ∧ (Value.object (merge.content existing)).at? place = (Value.object existing).at? place := by
  have distinct := merge.built.distinct
  by_cases taken : ∃ above, above <+: place ∧ above ≠ [] ∧ Taken merge "" existing above
  · obtain ⟨above, before, some, taken⟩ := taken
    have known := Option.isSome_of_mem (leafAt?_eq_some_iff.mp asks)
    have same := at?_merged_below_taken merge distinct known before some taken []
    rw [List.append_nil] at same
    refine Or.inr ⟨?_, same⟩
    rintro rfl
    obtain ⟨name, rest, rfl⟩ := List.exists_cons_of_ne_nil some
    cases taken.1
  · exact Or.inl ⟨_, at?_merged_leaf merge distinct asks fun above before some here => taken ⟨above, before, some, here⟩⟩

/-- The result holds, at the place of each leaf of the tree, the value due there, unless something on the way to it is
taken over. -/
theorem at?_reconcile_leaf (built : Built) (existing : Option Value) (locale : String) (isPrimary : Bool)
    (policy : Policy) (place : List String) (leaf : Leaf)
    (asks : Tree.leafAt? place (.branch built.entries) = some leaf)
    (own : ∀ above, above <+: place → above ≠ [] → ¬ TakenOver built policy existing above) :
    (Value.object (reconcile built existing locale isPrimary policy)).at? place =
      some (dueValue built existing locale isPrimary policy place leaf) := by
  have somewhere : place ≠ [] := by
    rintro rfl
    cases asks
  rw [object_reconcile, dueValue_eq, ← at?_known somewhere existing]
  apply at?_merged_leaf _ built.distinct asks
  intro above before some
  rw [taken_iff built existing locale isPrimary policy some]
  exact own above before some

def menuTitle : Key :=
  { text := "menu.title", namespaceName := "translation", defaultValue := some "Menu", explicitDefault := true }

def germanMenu : Built :=
  .ofKeys { locales := ["en", "de"], extraction := { primaryLanguage := some "en" } } [menuTitle] "translation" "de"

def oldMenu : Value :=
  .object [("menu", .object [("legacy", .text "Alt"), ("title", .text "Titel")]), ("gone", .text "Weg")]

def replacing : Policy where
  preservePatterns := [fun path => path == "menu.legacy"]
  defaultSource := .function fun request => .ok (.text (request.locale ++ ": " ++ request.value))
  syncAll := true

/-- A text beside one that is to be kept is replaced when the run is asked for it. -/
theorem title_replaced_beside_kept_text :
    (Value.object (reconcile germanMenu (some oldMenu) "de" false replacing)).at? ["menu", "title"] =
      some (.text "de: Menu") := by
  have own : ∀ above ∈ ["menu", "title"].inits, above ≠ [] → ¬ TakenOver germanMenu replacing (some oldMenu) above := by
    decide +kernel
  exact at?_reconcile_leaf germanMenu (some oldMenu) "de" false replacing ["menu", "title"]
    ⟨"menu.title", "Menu", true, false⟩ (by decide +kernel) fun above before => own above ((List.mem_inits _ _).mpr before)

end Phrasebook.Proofs.LeafValues
