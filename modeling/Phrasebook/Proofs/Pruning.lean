import Phrasebook.Proofs.MergedPlaces
import Phrasebook.Proofs.Segments

/-! What a merge keeps of values that only the catalog has. Pruning goes down an object level by level until a path is to
be kept as it is, or until it comes to a single value; that one stays when its own path speaks for it, and an object
stays when anything inside it does. -/

namespace Phrasebook.Proofs.Pruning

open Catalog MergeLevels MergedPlaces Places

section Unused

variable (merge : Merge)

/-- Whether a value at a path is kept as a whole although only the catalog has it. -/
def Whole (path : String) : Prop := merge.policy.removeUnused = false ∨ merge.preserves path = true

theorem unused?_of_whole {path : String} (whole : Whole merge path) (value : Value) :
    merge.unused? path value = some value := by
  rcases whole with keeps | preserved
  · cases value <;> simp [Merge.unused?, keeps]
  · cases value <;> simp [Merge.unused?, preserved]

theorem unused?_of_single {path : String} {value : Value} (single : value.isObject = false)
    (parts : ¬ Whole merge path) :
    merge.unused? path value = if merge.keepsUnused path then some value else none := by
  rw [Whole, not_or, Bool.not_eq_false, Bool.not_eq_true] at parts
  cases value <;> simp_all [Merge.unused?, Value.isObject]

/-- An object that is not kept as a whole is pruned entry by entry. -/
theorem at?_unused?_object {path : String} {entries : Entries} (distinct : (Table.names entries).Nodup)
    (parts : ¬ Whole merge path) (name : String) (rest : List String) :
    (merge.unused? path (.object entries)).bind (Value.at? (name :: rest)) =
      ((Table.find? name entries).bind (merge.unused? (merge.policy.join path name))).bind (Value.at? rest) := by
  rw [Whole, not_or, Bool.not_eq_false, Bool.not_eq_true] at parts
  rw [← find?_unusedEntries merge distinct, Merge.unused?]
  cases kept : merge.unusedEntries path entries with
  | nil => simp [parts, Table.find?]
  | cons entry others => simp [parts, Value.at?]

/-- All of a value stays that lies at or below a path kept as a whole. -/
theorem at?_unused?_of_whole {path : String} {value inner : Value} {place : List String} (distinct : value.Distinct)
    (held : value.at? place = some inner)
    (whole : ∃ above, above <+: place ∧ Whole merge (merge.policy.pathBelow path above)) :
    (merge.unused? path value).bind (Value.at? place) = some inner := by
  obtain ⟨above, before, whole⟩ := whole
  induction place generalizing path value above with
  | nil =>
    obtain rfl := List.prefix_nil.mp before
    have here : Whole merge path := whole
    rw [unused?_of_whole merge here, Option.bind_some, held]
  | cons name rest ih =>
    by_cases here : Whole merge path
    · rw [unused?_of_whole merge here, Option.bind_some, held]
    · cases value with
      | object entries =>
        obtain ⟨old, found, heldBelow⟩ := Option.bind_eq_some_iff.mp held
        rcases List.prefix_cons_iff.mp before with rfl | ⟨further, rfl, beforeBelow⟩
        · exact absurd whole here
        · rw [at?_unused?_object merge distinct.names here, found]
          exact ih (distinct.inside _ (Table.mem_of_find? found)) heldBelow further beforeBelow whole
      | _ => cases held

/-- Along paths of which none is kept as a whole, what stays of a value is what stays of the part found there. -/
theorem at?_unused?_of_parts {path : String} {value inner : Value} {place : List String} (distinct : value.Distinct)
    (held : value.at? place = some inner)
    (parts : ∀ above, above <+: place → ¬ Whole merge (merge.policy.pathBelow path above)) :
    (merge.unused? path value).bind (Value.at? place) = merge.unused? (merge.policy.pathBelow path place) inner := by
  induction place generalizing path value with
  | nil =>
    obtain rfl := Option.some.inj held
    exact Option.bind_fun_some _
  | cons name rest ih =>
    cases value with
    | object entries =>
      obtain ⟨old, found, heldBelow⟩ := Option.bind_eq_some_iff.mp held
      have here : ¬ Whole merge path := parts [] List.nil_prefix
      rw [at?_unused?_object merge distinct.names here, found]
      apply ih (distinct.inside _ (Table.mem_of_find? found)) heldBelow
      exact fun above before => parts (name :: above) (by simpa using before)
    | _ => cases held

/-- Whether a single value stays: with something at or above it that is kept as a whole, or for its own path. -/
def Kept (path : String) (place : List String) : Prop :=
  (∃ above, above <+: place ∧ Whole merge (merge.policy.pathBelow path above)) ∨
    merge.keepsUnused (merge.policy.pathBelow path place) = true

theorem at?_unused?_single {path : String} {value inner : Value} {place : List String} (distinct : value.Distinct)
    (held : value.at? place = some inner) (single : inner.isObject = false) :
    (Kept merge path place → (merge.unused? path value).bind (Value.at? place) = some inner) ∧
      (¬ Kept merge path place → (merge.unused? path value).bind (Value.at? place) = none) := by
  by_cases whole : ∃ above, above <+: place ∧ Whole merge (merge.policy.pathBelow path above)
  · exact ⟨fun _ => at?_unused?_of_whole merge distinct held whole, fun gone => absurd (Or.inl whole) gone⟩
  · have parts (above : List String) (before : above <+: place) : ¬ Whole merge (merge.policy.pathBelow path above) :=
      fun here => whole ⟨above, before, here⟩
    rw [at?_unused?_of_parts merge distinct held parts, unused?_of_single merge single (parts place List.prefix_rfl)]
    exact ⟨fun kept => if_pos (kept.resolve_left whole), fun gone => if_neg (not_or.mp gone).2⟩

end Unused

/-- Whether anything speaks for a value that only the catalog has. The way leads through the tree to a branch without
the name, and the rest leads on from there to the value. -/
def Stays (built : Built) (policy : Policy) (way : List String) (name : String) (rest : List String) : Prop :=
  let path := policy.pathOf (way ++ name :: rest)
  policy.removeUnused = false ∨
  (∃ above, above <+: rest ∧ policy.preserves built.namespaceName (policy.pathOf (way ++ name :: above)) = true) ∨
  (∃ base category, variantOf? policy.pluralSeparator path = some (base, category) ∧ base ∈ built.pluralBases) ∨
  (policy.preserveContextVariants = true ∧
    ∃ base ∈ built.contextBases, ∃ ending, path = base ++ policy.contextSeparator ++ ending)

theorem startsWith_iff {mark text : String} : Text.startsWith mark text = true ↔ ∃ ending, text = mark ++ ending := by
  rw [Text.startsWith, Option.isSome_iff_exists]
  constructor
  · rintro ⟨behind, found⟩
    refine ⟨String.ofList behind, ?_⟩
    rw [← String.toList_inj, Text.eq_append_of_after? found, String.toList_append, String.toList_ofList]
  · rintro ⟨ending, rfl⟩
    exact ⟨ending.toList, by rw [String.toList_append, Segments.after?_append]⟩

theorem keepsUnused_iff {merge : Merge} {path : String} :
    merge.keepsUnused path = true ↔
      (∃ base category, variantOf? merge.policy.pluralSeparator path = some (base, category) ∧
        base ∈ merge.built.pluralBases) ∨
      (merge.policy.preserveContextVariants = true ∧
        ∃ base ∈ merge.built.contextBases, ∃ ending, path = base ++ merge.policy.contextSeparator ++ ending) := by
  simp [Merge.keepsUnused, startsWith_iff, Option.any_eq_true]

theorem stays_iff {built : Built} {policy : Policy} {way : List String} {name : String} {rest : List String}
    (locale : String) (isPrimary : Bool) :
    Stays built policy way name rest ↔
      Kept ⟨built, locale, isPrimary, policy⟩ (policy.pathOf (way ++ [name])) rest := by
  have path_eq (below : List String) :
      policy.pathBelow (policy.pathOf (way ++ [name])) below = policy.pathOf (way ++ name :: below) := by
    rw [Policy.pathOf, Policy.pathOf, ← Policy.pathBelow_append, ← List.append_cons]
  have whole : (∃ above, above <+: rest ∧
        Whole ⟨built, locale, isPrimary, policy⟩ (policy.pathOf (way ++ name :: above))) ↔
      policy.removeUnused = false ∨
        ∃ above, above <+: rest ∧
          policy.preserves built.namespaceName (policy.pathOf (way ++ name :: above)) = true := by
    constructor
    · rintro ⟨above, before, off | preserved⟩
      · exact Or.inl off
      · exact Or.inr ⟨above, before, preserved⟩
    · rintro (off | ⟨above, before, preserved⟩)
      · exact ⟨[], List.nil_prefix, Or.inl off⟩
      · exact ⟨above, before, Or.inr preserved⟩
  simp only [Kept, path_eq]
  rw [Stays, whole, keepsUnused_iff, or_assoc]

/-- A value that only the catalog has is found again just when something speaks for it, and otherwise nothing is left of
it. -/
theorem at?_reconcile_unused (built : Built) (existing : Option Value) (locale : String) (isPrimary : Bool)
    (policy : Policy) (distinct : ∀ value ∈ existing, value.Distinct) (way : List String) (name : String)
    (rest : List String) (entries : Tree.Entries Leaf)
    (leads : Tree.at? way (.branch built.entries) = some (.branch entries)) (lacks : name ∉ Table.names entries)
    (own : ∀ above, above <+: way → above ≠ [] → ¬ TakenOver built policy existing above)
    (value : Value) (single : value.isObject = false)
    (held : existing.bind (Value.at? (way ++ name :: rest)) = some value) :
    ((Value.object (reconcile built existing locale isPrimary policy)).at? (way ++ name :: rest) = some value ↔
        Stays built policy way name rest) ∧
      (¬ Stays built policy way name rest →
        (Value.object (reconcile built existing locale isPrimary policy)).at? (way ++ name :: rest) = none) := by
  rw [← at?_known (by simp), List.append_cons, Value.at?_append] at held
  obtain ⟨old, found, heldBelow⟩ := Option.bind_eq_some_iff.mp held
  have distinctKnown := distinct_known distinct
  have distinctOld := distinctKnown.of_at? found
  have untaken (above : List String) (before : above <+: way) (some : above ≠ []) :=
    mt (taken_iff built existing locale isPrimary policy some).mp (own above before some)
  have left := at?_merged_of_left ⟨built, locale, isPrimary, policy⟩ built.distinct distinctKnown leads
    (Table.find?_eq_none_iff.mpr lacks) untaken rest
  rw [found, Option.bind_some, ← object_reconcile] at left
  obtain ⟨stays, goes⟩ := at?_unused?_single ⟨built, locale, isPrimary, policy⟩ distinctOld heldBelow single
  rw [stays_iff locale isPrimary, left]
  refine ⟨⟨fun there => ?_, stays⟩, goes⟩
  by_contra gone
  cases (goes gone).symm.trans there

def countedItem : Key := { text := "item", namespaceName := "translation", plural := some {} }

def englishItem : Built :=
  .ofKeys { locales := ["en"], extraction := { primaryLanguage := some "en" } } [countedItem] "translation" "en"

def itemCatalog : Value :=
  .object [("item_few", .text "Few"), ("item_one", .text "One"), ("old", .object [("item_few", .text "Old")])]

theorem distinct_itemCatalog : itemCatalog.Distinct := by
  refine .object (by decide) ?_
  intro entry member
  simp only [List.mem_cons, List.not_mem_nil, or_false] at member
  rcases member with rfl | rfl | rfl
  · exact .single rfl
  · exact .single rfl
  · exact .object (by decide) (by simpa using Value.Distinct.single rfl)

/-- A form of a key in use stays, also of a category that its language does not have, and one of another key goes. -/
theorem forms_of_used_key_stay :
    (Value.object (reconcile englishItem (some itemCatalog) "en" true {})).at? ["item_few"] = some (.text "Few") ∧
      (Value.object (reconcile englishItem (some itemCatalog) "en" true {})).at? ["old", "item_few"] = none := by
  have distinct (value : Value) (same : value ∈ some itemCatalog) : value.Distinct :=
    Option.some.inj same ▸ distinct_itemCatalog
  have form := at?_reconcile_unused englishItem (some itemCatalog) "en" true {} distinct [] "item_few" [] _ rfl
    (by decide +kernel) (by simp) (.text "Few") rfl rfl
  have other := at?_reconcile_unused englishItem (some itemCatalog) "en" true {} distinct [] "old" ["item_few"] _ rfl
    (by decide +kernel) (by simp) (.text "Old") rfl rfl
  refine ⟨form.1.mpr (Or.inr (Or.inr (Or.inl ⟨"item", .few, by decide +kernel, by decide +kernel⟩))), other.2 ?_⟩
  rintro (keeps | ⟨above, _, preserved⟩ | ⟨base, category, split, used⟩ | ⟨contexts, _⟩)
  · cases keeps
  · simp only [Policy.preserves, List.any_nil, Bool.false_or] at preserved
    split at preserved <;> cases preserved
  · -- the form of a key below another name is the form of another key
    have known : variantOf? "_" "old.item_few" = some ("old.item", .few) := by decide +kernel
    obtain ⟨rfl, _⟩ := Prod.mk.inj (Option.some.inj (split.symm.trans known))
    exact absurd used (by decide +kernel)
  · cases contexts

end Phrasebook.Proofs.Pruning
