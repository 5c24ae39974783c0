import Phrasebook.Proofs.Pruning

/-! Values under a path that a pattern covers. Whether the tree has anything at the place of such a value, the value lies
in an object that only the catalog has, or in one that is taken over for its own path, the result holds it as it was. -/

namespace Phrasebook.Proofs.Preservation

open Catalog MergedPlaces Places Pruning

/-- Whether a pattern of kept keys covers a path, alone or with its namespace in front. -/
def Covered (policy : Policy) (namespaceName path : String) : Prop :=
  ∃ covers ∈ policy.preservePatterns, covers path = true ∨
    ∃ mark, policy.namespaceSeparator.mark? = some mark ∧ covers (namespaceName ++ mark ++ path) = true

theorem preserves_of_covered {policy : Policy} {namespaceName path : String}
    (covered : Covered policy namespaceName path) : policy.preserves namespaceName path = true := by
  obtain ⟨covers, member, alone | ⟨mark, marked, qualified⟩⟩ := covered
  · rw [Policy.preserves, Bool.or_eq_true, List.any_eq_true]
    exact Or.inl ⟨covers, member, alone⟩
  · rw [Policy.preserves, marked, Bool.or_eq_true, List.any_eq_true, List.any_eq_true]
    exact Or.inr ⟨covers, member, qualified⟩

theorem at?_merged_of_preserved (merge : Merge) {path : String} {existing : Entries} {entries : Tree.Entries Leaf}
    (distinct : (Tree.branch entries).Distinct) (distinctExisting : (Value.object existing).Distinct)
    {place : List String} (somewhere : place ≠ []) {value : Value}
    (held : (Value.object existing).at? place = some value)
    (preserved : merge.preserves (merge.policy.pathBelow path place) = true)
    (free : ∀ above, above <+: place → above ≠ place → Tree.leafAt? above (.branch entries) = none) :
    (merged merge path existing entries).at? place = some value := by
  rcases at?_merged_cases merge distinct distinctExisting held free with
    known | stays | ⟨above, rest, old, rfl, distinctOld, heldBelow, same⟩
  · have taken : Taken merge path existing place := ⟨by simp [held], by simp [Merge.copies, preserved]⟩
    rw [at?_merged_of_taken merge distinct somewhere known taken, held]
  · exact stays
  · rw [Policy.pathBelow_append] at preserved
    rw [same]
    exact at?_unused?_of_whole merge distinctOld heldBelow ⟨rest, List.prefix_rfl, Or.inr preserved⟩

/-- A value under a path that a pattern covers is found again as it was, unless the tree has a leaf on the way to it. -/
theorem at?_reconcile_covered (built : Built) (existing : Option Value) (locale : String) (isPrimary : Bool)
    (policy : Policy) (distinct : ∀ value ∈ existing, value.Distinct) (place : List String) (somewhere : place ≠ [])
    (value : Value) (held : existing.bind (Value.at? place) = some value)
    (covered : Covered policy built.namespaceName (policy.pathOf place))
    (free : ∀ above, above <+: place → above ≠ place → Tree.leafAt? above (.branch built.entries) = none) :
    (Value.object (reconcile built existing locale isPrimary policy)).at? place = some value := by
  rw [← at?_known somewhere] at held
  rw [object_reconcile]
  exact at?_merged_of_preserved _ built.distinct (distinct_known distinct) somewhere held (preserves_of_covered covered)
    free

def dynamicTitle : Built :=
  .ofKeys { locales := ["en"], extraction := { primaryLanguage := some "en" } }
    [{ text := "dynamic.title", namespaceName := "translation" }] "translation" "en"

def statusCatalog : Value :=
  .object [("dynamic", .object [("status", .object [("active", .text "Active"), ("since", .null)])])]

theorem distinct_statusCatalog : statusCatalog.Distinct := by
  refine .object (by decide) (List.forall_mem_singleton.mpr ?_)
  refine .object (by decide) (List.forall_mem_singleton.mpr ?_)
  exact .object (by decide) (List.forall_mem_cons.mpr ⟨.single rfl, List.forall_mem_singleton.mpr (.single rfl)⟩)

/-- A text that no key in the sources names as a whole stays for a pattern with its namespace. -/
theorem status_kept_by_pattern :
    (Value.object (reconcile dynamicTitle (some statusCatalog) "en" true
      (.ofExtraction { preservePatterns := ["translation:dynamic.status.*"] } ⟨true, true⟩))).at?
        ["dynamic", "status", "active"] = some (.text "Active") := by
  have free : ∀ above ∈ ["dynamic", "status", "active"].inits, above ≠ ["dynamic", "status", "active"] →
      Tree.leafAt? above (.branch dynamicTitle.entries) = none := by
    decide +kernel
  have covers : Pattern.covers "translation:dynamic.status.*" "translation:dynamic.status.active" = true := by cbv
  exact at?_reconcile_covered dynamicTitle (some statusCatalog) "en" true _
    (fun value same => Option.some.inj same ▸ distinct_statusCatalog) ["dynamic", "status", "active"]
    (List.cons_ne_nil _ _) (.text "Active") rfl ⟨_, List.mem_singleton_self _, Or.inr ⟨":", rfl, covers⟩⟩
    fun above before => free above ((List.mem_inits _ _).mpr before)

end Phrasebook.Proofs.Preservation
