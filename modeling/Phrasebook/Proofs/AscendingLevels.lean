import Phrasebook.Proofs.LeafValues
import Phrasebook.Proofs.Pruning

/-! In which order the names of an object stand after a merge that sorts. Every level that the tree has a branch
for is arranged. An object that only the catalog has is taken as it is or pruned, and pruning goes down the catalog's
own entries without arranging what is left of them. -/

namespace Phrasebook

/-- Whether the names of entries ascend, compared character by character. -/
def Ascending (entries : Catalog.Entries) : Prop := (Table.names entries).Pairwise (· < ·)

instance (entries : Catalog.Entries) : Decidable (Ascending entries) := inferInstanceAs (Decidable (List.Pairwise _ _))

/-- Why a value of a catalog is taken as it is, with all that is in it: its path is to be kept, the tree has a whole
object there, or the tree has nothing there and nothing is removed. -/
inductive CopiedWhole (built : Built) (policy : Policy) (place : List String) : Prop
  | preserved (path : policy.preserves built.namespaceName (policy.pathOf place) = true)
  | whole (known : (Tree.at? place (.branch built.entries)).isSome = true)
      (path : policy.pathOf place ∈ built.opaquePaths)
  | unused (lacks : Tree.at? place (.branch built.entries) = none) (keeps : policy.removeUnused = false)

/-- Where an object at a place of a merged catalog comes from, and in which order its names stand. -/
inductive Arranged (built : Built) (existing : Option Catalog.Value) (locale : String) (isPrimary : Bool)
    (policy : Policy) (place : List String) (entries : Catalog.Entries) : Prop
  /-- The tree has a branch there, and the names ascend. -/
  | level {inner : Tree.Entries Leaf} (leads : Tree.at? place (.branch built.entries) = some (.branch inner))
      (ascending : Ascending entries)
  /-- The object lies in something of the catalog that is taken as it is. -/
  | copied {above : List String} (before : above <+: place) (somewhere : above ≠ [])
      (whole : CopiedWhole built policy above)
      (same : existing.bind (Catalog.Value.at? place) = some (.object entries))
  /-- Only the catalog has an object there, and what stays of its names stands as it stood. -/
  | pruned {old : Catalog.Entries} (lacks : Tree.at? place (.branch built.entries) = none)
      (held : existing.bind (Catalog.Value.at? place) = some (.object old))
      (kept : (Table.names entries).Sublist (Table.names old))
  /-- The object lies in what the source of defaults gives for a leaf. -/
  | given {above rest : List String} {leaf : Leaf} (along : place = above ++ rest)
      (asks : Tree.leafAt? above (.branch built.entries) = some leaf) (secondary : isPrimary = false)
      (value : (policy.defaultSource.value
          (Merge.request ⟨built, locale, isPrimary, policy⟩ (policy.pathOf above) leaf)).at? rest =
        some (.object entries))

namespace Proofs.AscendingLevels

open Catalog LeafValues MergeLevels MergedPlaces Places Pruning

section Levels

variable (merge : Merge)

theorem ascending_arrange (sorts : merge.policy.order = .ascending) (path : String) {entries : Entries}
    (distinct : (Table.names entries).Nodup) : Ascending (merge.arrange path entries) := by
  have lawful := StableSorting.lawful_names
  have sorted : (merge.arrange path entries).Pairwise fun first second => first.1 ≤ second.1 := by
    rw [Merge.arrange, sorts]
    exact (List.pairwise_mergeSort lawful.trans lawful.total entries).imp fun before => of_decide_eq_true before
  have apart : (Table.names (merge.arrange path entries)).Pairwise (· ≠ ·) :=
    ((arrange_perm merge path entries).map Prod.fst).nodup_iff.mpr distinct
  refine ((List.pairwise_map.mpr sorted).and apart).imp ?_
  rintro first second ⟨before, different⟩
  exact String.not_le.mp fun behind => different (String.le_antisymm before behind)

/-- An object in what stays of a value lies in a part that is kept as a whole, or its names are those of the value's
object there that stay, in their order. -/
theorem object_of_unused? {path : String} {value kept : Value} {place : List String} {entries : Entries}
    (distinct : value.Distinct) (stays : merge.unused? path value = some kept)
    (held : kept.at? place = some (.object entries)) :
    ((∃ above, above <+: place ∧ Whole merge (merge.policy.pathBelow path above)) ∧
        value.at? place = some (.object entries)) ∨
      ∃ old, value.at? place = some (.object old) ∧ (Table.names entries).Sublist (Table.names old) := by
  induction place generalizing path value kept with
  | nil =>
    obtain rfl := Option.some.inj held
    by_cases whole : Whole merge path
    · obtain rfl := Option.some.inj ((unused?_of_whole merge whole value).symm.trans stays)
      exact .inl ⟨⟨[], List.nil_prefix, whole⟩, rfl⟩
    · cases value with
      | object old =>
        rw [Whole, not_or, Bool.not_eq_false, Bool.not_eq_true] at whole
        rw [Merge.unused?, if_neg (by simp [whole])] at stays
        split at stays
        · cases stays
        · obtain rfl := Value.object.inj (Option.some.inj stays)
          exact .inr ⟨old, rfl, names_unusedEntries merge path old⟩
      | _ =>
        rw [unused?_of_single merge rfl whole] at stays
        split at stays <;> cases stays
  | cons name rest ih =>
    by_cases whole : Whole merge path
    · obtain rfl := Option.some.inj ((unused?_of_whole merge whole value).symm.trans stays)
      exact .inl ⟨⟨[], List.nil_prefix, whole⟩, held⟩
    · cases value with
      | object old =>
        have below := at?_unused?_object merge distinct.names whole name rest
        rw [stays, Option.bind_some, held] at below
        obtain ⟨inner, staysBelow, heldBelow⟩ := Option.bind_eq_some_iff.mp below.symm
        obtain ⟨outer, found, staysInside⟩ := Option.bind_eq_some_iff.mp staysBelow
        have same : (Value.object old).at? (name :: rest) = outer.at? rest := by rw [Value.at?, found, Option.bind_some]
        rw [same]
        refine (ih (distinct.inside _ (Table.mem_of_find? found)) staysInside heldBelow).imp_left ?_
        rintro ⟨⟨above, before, wholeAbove⟩, there⟩
        exact ⟨⟨name :: above, by simpa using before, wholeAbove⟩, there⟩
      | _ =>
        rw [unused?_of_single merge rfl whole] at stays
        split at stays
        · obtain rfl := Option.some.inj stays
          cases held
        · cases stays

/-- An object in the value made for a leaf is none that the catalog has: it is given for the leaf, in another locale
than the primary one. -/
theorem object_of_leafValue {path : String} {leaf : Leaf} {existing : Option Value} {rest : List String}
    {entries : Entries} (held : (merge.leafValue path leaf existing).at? rest = some (.object entries)) :
    merge.isPrimary = false ∧
      (merge.policy.defaultSource.value (merge.request path leaf)).at? rest = some (.object entries) := by
  have single {value : Value} (noObject : value.isObject = false) : value.at? rest ≠ some (.object entries) := by
    intro inside
    cases value with
    | object others => cases noObject
    | _ => cases rest <;> cases inside
  rw [Merge.leafValue] at held
  cases kept : (Merge.textAt? existing).filter fun _ => merge.keepsText leaf with
  | some value =>
    rw [kept] at held
    obtain ⟨text, -⟩ := Option.filter_eq_some_iff.mp kept
    obtain ⟨-, noObject⟩ := Option.filter_eq_some_iff.mp text
    exact absurd held (single (by simpa using noObject))
  | none =>
    rw [kept, Option.getD_none, Merge.newValue] at held
    split at held
    · exact absurd held (single rfl)
    next secondary => exact ⟨Bool.eq_false_iff.mpr secondary, held⟩

end Levels

section Results

variable {built : Built} {existing : Option Value} {locale : String} {isPrimary : Bool} {policy : Policy}
  {entries : Entries}

/-- Where a place leaves the tree, an object is taken as it is or pruned. -/
theorem arranged_of_left (distinct : ∀ value ∈ existing, value.Distinct) {way rest : List String} {name : String}
    {inner : Tree.Entries Leaf} (leads : Tree.at? way (.branch built.entries) = some (.branch inner))
    (lacks : Table.find? name inner = none)
    (own : ∀ above, above <+: way → above ≠ [] → ¬ TakenOver built policy existing above)
    (held : (Value.object (reconcile built existing locale isPrimary policy)).at? (way ++ name :: rest) =
      some (.object entries)) :
    Arranged built existing locale isPrimary policy (way ++ name :: rest) entries := by
  have nothing (below : List String) : Tree.at? (way ++ name :: below) (.branch built.entries) = none := by
    rw [Tree.at?_append, leads, Option.bind_some, Tree.at?, lacks, Option.bind_none]
  have untaken (above : List String) (before : above <+: way) (some : above ≠ []) :=
    mt (taken_iff built existing locale isPrimary policy some).mp (own above before some)
  have left := at?_merged_of_left ⟨built, locale, isPrimary, policy⟩ built.distinct (distinct_known distinct) leads
    lacks untaken rest
  rw [← object_reconcile, held] at left
  obtain ⟨kept, stays, heldKept⟩ := Option.bind_eq_some_iff.mp left.symm
  obtain ⟨old, found, staysOld⟩ := Option.bind_eq_some_iff.mp stays
  have same : existing.bind (Value.at? (way ++ name :: rest)) = old.at? rest := by
    rw [← at?_known (by simp) existing, List.append_cons, Value.at?_append, found, Option.bind_some]
  rcases object_of_unused? _ ((distinct_known distinct).of_at? found) staysOld heldKept with
    ⟨⟨above, before, whole⟩, there⟩ | ⟨others, there, sublist⟩
  · have within : way ++ name :: above <+: way ++ name :: rest := by simpa using before
    refine .copied within (by simp) ?_ (same.trans there)
    rcases whole with keeps | preserved
    · exact .unused (nothing above) keeps
    · refine .preserved ?_
      rw [List.append_cons, Policy.pathOf, Policy.pathBelow_append]
      exact preserved
  · exact .pruned (nothing rest) (same.trans there) sublist

/-- At or below a leaf, an object is taken over or given by the source of defaults. -/
theorem arranged_of_leaf {above rest : List String} {leaf : Leaf}
    (asks : Tree.leafAt? above (.branch built.entries) = some leaf)
    (own : ∀ before, before <+: above → before ≠ [] → ¬ TakenOver built policy existing before)
    (held : (Value.object (reconcile built existing locale isPrimary policy)).at? (above ++ rest) =
      some (.object entries)) :
    Arranged built existing locale isPrimary policy (above ++ rest) entries := by
  rw [Value.at?_append, at?_reconcile_leaf built existing locale isPrimary policy above leaf asks own, dueValue_eq,
    Option.bind_some] at held
  obtain ⟨secondary, value⟩ := object_of_leafValue _ held
  exact .given rfl asks secondary value

/-- Every object of a merged catalog is taken from the old one as it is, given by the source of defaults, or a level
whose names ascend, but for those that only the old catalog has and that are pruned: their names stand as they stood
there. A list counts as a single value, whatever is in it. -/
theorem arranged_of_at?_reconcile (built : Built) (existing : Option Value) (locale : String) (isPrimary : Bool)
    (policy : Policy) (sorts : policy.order = .ascending) (distinct : ∀ value ∈ existing, value.Distinct)
    (place : List String) (entries : Entries)
    (held : (Value.object (reconcile built existing locale isPrimary policy)).at? place = some (.object entries)) :
    Arranged built existing locale isPrimary policy place entries := by
  let Known (above : List String) : Prop := (Tree.at? above (.branch built.entries)).isSome = true
  by_cases taken : ∃ above, above <+: place ∧ above ≠ [] ∧ Known above ∧ TakenOver built policy existing above
  · obtain ⟨above, before, somewhere, known, taken⟩ := taken
    obtain ⟨rest, rfl⟩ := before
    have takenHere := (taken_iff built existing locale isPrimary policy somewhere).mpr taken
    have same := at?_merged_below_taken _ built.distinct known List.prefix_rfl somewhere takenHere rest
    rw [← object_reconcile, held, at?_known (by simp [somewhere])] at same
    refine .copied (List.prefix_append above rest) somewhere ?_ same.symm
    exact taken.2.elim .preserved (.whole known)
  · have own (way : List String) (before : way <+: place) (known : Known way) (above : List String)
        (within : above <+: way) (somewhere : above ≠ []) : ¬ TakenOver built policy existing above :=
      fun here => taken ⟨above, within.trans before, somewhere, Tree.at?_isSome_of_prefix within known, here⟩
    by_cases blocked : ∃ above leaf, above <+: place ∧ Tree.leafAt? above (.branch built.entries) = some leaf
    · obtain ⟨above, leaf, ⟨rest, rfl⟩, asks⟩ := blocked
      have known := Option.isSome_of_mem (leafAt?_eq_some_iff.mp asks)
      exact arranged_of_leaf asks (own above (List.prefix_append above rest) known) held
    · have free (above : List String) (before : above <+: place) :
          Tree.leafAt? above (.branch built.entries) = none :=
        Option.eq_none_iff_forall_ne_some.mpr fun leaf asks => blocked ⟨above, leaf, before, asks⟩
      have ends := at?_cases fun above before _ => free above before
      rcases ends with known | ⟨way, name, rest, inner, rfl, leads, lacks⟩
      · obtain ⟨tree, leads⟩ := Option.isSome_iff_exists.mp known
        cases tree with
        | leaf leaf => cases (free place List.prefix_rfl).symm.trans (leafAt?_eq_some_iff.mpr leads)
        | branch inner =>
          have made := at?_merged_append ⟨built, locale, isPrimary, policy⟩ built.distinct leads
            (fun above before some => mt (taken_iff built existing locale isPrimary policy some).mp
              (own place List.prefix_rfl known above before some)) []
          rw [List.append_nil, ← object_reconcile, held] at made
          obtain rfl := Value.object.inj (Option.some.inj made)
          refine .level leads (ascending_arrange _ sorts _ ?_)
          exact nodup_names_level _ (built.distinct.of_at? leads).names
            (distinct_entriesAt (distinct_known distinct) place).names
      · have known := Option.isSome_of_mem leads
        exact arranged_of_left distinct leads lacks (own way (List.prefix_append _ _) known) held

end Results

def menuAbout : Key :=
  { text := "menu.about", namespaceName := "translation", defaultValue := some "About", explicitDefault := true }

def keptMenu : Built :=
  .ofKeys { locales := ["en"], extraction := { primaryLanguage := some "en" } }
    [{ menuAbout with text := "menu.title", defaultValue := some "Title" }, menuAbout] "translation" "en"

def keepsTwo : Policy where
  preservePatterns := [fun path => path == "old.z" || path == "old.a"]

def pagesCatalog : Value :=
  .object
    [("old", .object [("z", .text "Z"), ("gone", .text "Gone"), ("a", .text "A")]),
      ("menu", .object [("title", .text "Title")])]

theorem distinct_pagesCatalog : pagesCatalog.Distinct := by
  refine .object (by decide) ?_
  intro entry member
  simp only [List.mem_cons, List.not_mem_nil, or_false] at member
  rcases member with rfl | rfl
  · refine .object (by decide) ?_
    rintro entry (_ | ⟨_, _ | ⟨_, _ | ⟨_, ⟨⟩⟩⟩⟩) <;> exact .single rfl
  · exact .object (by decide) (by simpa using Value.Distinct.single rfl)

/-- The names of the catalog itself ascend, though it had them otherwise. -/
theorem pages_arranged :
    ¬ Ascending pagesCatalog.entries ∧ Ascending (reconcile keptMenu (some pagesCatalog) "en" true keepsTwo) := by
  have distinct (value : Value) (same : value ∈ some pagesCatalog) : value.Distinct :=
    Option.some.inj same ▸ distinct_pagesCatalog
  refine ⟨by decide, ?_⟩
  cases arranged_of_at?_reconcile keptMenu (some pagesCatalog) "en" true keepsTwo rfl distinct [] _ rfl with
  | level leads ascending => exact ascending
  | copied before somewhere whole same => exact absurd (List.prefix_nil.mp before) somewhere
  | pruned lacks held kept => cases lacks
  | given along asks secondary value => cases secondary

/-- What is left of a pruned object stands as the catalog had it, though names are to ascend. -/
theorem pruned_object_not_arranged :
    keepsTwo.order = .ascending ∧
      (Value.object (reconcile keptMenu (some pagesCatalog) "en" true keepsTwo)).at? ["old"] =
        some (.object [("z", .text "Z"), ("a", .text "A")]) ∧
      ¬ Ascending [("z", .text "Z"), ("a", .text "A")] ∧
      ∀ above, above <+: ["old"] → ¬ CopiedWhole keptMenu keepsTwo above := by
  refine ⟨rfl, ?_, by decide, ?_⟩
  · have own (above : List String) (before : above <+: []) (some : above ≠ []) :
        ¬ Taken ⟨keptMenu, "en", true, keepsTwo⟩ "" pagesCatalog.entries above :=
      absurd (List.prefix_nil.mp before) some
    have lacks : Table.find? "old" keptMenu.entries = none := by decide +kernel
    have left := at?_merged_of_left ⟨keptMenu, "en", true, keepsTwo⟩ keptMenu.distinct distinct_pagesCatalog rfl lacks
      own []
    exact left.trans (by with_unfolding_all rfl)
  · have notPreserved : ∀ above ∈ ["old"].inits,
        keepsTwo.preserves keptMenu.namespaceName (keepsTwo.pathOf above) = false := by decide +kernel
    intro above before copied
    cases copied with
    | preserved path => simp [notPreserved above ((List.mem_inits _ _).mpr before)] at path
    | whole known path =>
      have noneOpaque : keptMenu.opaquePaths = [] := by decide +kernel
      simp [noneOpaque] at path
    | unused lacks keeps => cases keeps

end Proofs.AscendingLevels

end Phrasebook
