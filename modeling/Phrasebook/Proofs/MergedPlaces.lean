import Phrasebook.Proofs.MergeLevels

/-! A merge followed down a place. A name of the tree leads on to what the tree makes there, any other name to what is
kept of the catalog's value, and below a value that is taken over all is as the catalog has it. -/

namespace Phrasebook

namespace Policy

/-- The path of a place that starts at the place of another path. -/
def pathBelow (policy : Policy) (path : String) (place : List String) : String := place.foldl policy.join path

/-- The path that a place stands for. -/
def pathOf (policy : Policy) (place : List String) : String := policy.pathBelow "" place

theorem pathBelow_append (policy : Policy) (path : String) (first second : List String) :
    policy.pathBelow path (first ++ second) = policy.pathBelow (policy.pathBelow path first) second :=
  List.foldl_append

end Policy

/-- Whether a merge takes over, as it is, what a catalog has at a place: it has something there, and the path of the
place is to be kept or stands for a whole object. -/
def TakenOver (built : Built) (policy : Policy) (existing : Option Catalog.Value) (place : List String) : Prop :=
  (existing.bind (Catalog.Value.at? place)).isSome = true ∧
    (policy.preserves built.namespaceName (policy.pathOf place) = true ∨ policy.pathOf place ∈ built.opaquePaths)

instance (built : Built) (policy : Policy) (existing : Option Catalog.Value) (place : List String) :
    Decidable (TakenOver built policy existing place) :=
  inferInstanceAs (Decidable (_ ∧ _))

namespace Proofs.MergedPlaces

open Catalog MergeLevels Places

/-- The entries that a catalog has at a place: none where it has no object. -/
def entriesAt : (place : List String) → Entries → Entries
  | [], existing => existing
  | name :: rest, existing => entriesAt rest (((Table.find? name existing).map Value.entries).getD [])

theorem at?_known {place : List String} (somewhere : place ≠ []) (existing : Option Value) :
    (Value.object ((existing.map Value.entries).getD [])).at? place = existing.bind (Value.at? place) := by
  obtain ⟨name, rest, rfl⟩ := List.exists_cons_of_ne_nil somewhere
  cases existing with
  | none => rfl
  | some value => cases value <;> rfl

theorem at?_single (name : String) (existing : Entries) :
    (Value.object existing).at? [name] = Table.find? name existing :=
  Option.bind_fun_some _

theorem at?_entriesAt (way : List String) (name : String) (rest : List String) (existing : Entries) :
    (Value.object (entriesAt way existing)).at? (name :: rest) =
      (Value.object existing).at? (way ++ name :: rest) := by
  induction way generalizing existing with
  | nil => rfl
  | cons first way ih =>
    rw [entriesAt, ih, List.cons_append, Value.at?]
    exact at?_known (by simp) _

theorem distinct_known {existing : Option Value} (distinct : ∀ value ∈ existing, value.Distinct) :
    (Value.object ((existing.map Value.entries).getD [])).Distinct := by
  cases existing with
  | none => exact .object List.nodup_nil (by simp)
  | some value => exact (distinct value rfl).entries

theorem distinct_entriesAt {existing : Entries} (distinct : (Value.object existing).Distinct) (way : List String) :
    (Value.object (entriesAt way existing)).Distinct := by
  induction way generalizing existing with
  | nil => exact distinct
  | cons name rest ih =>
    refine ih (distinct_known fun value found => ?_)
    exact distinct.inside _ (Table.mem_of_find? found)

variable (merge : Merge)

/-- What a merge makes of a branch of the tree and of the entries that a catalog has there. -/
def merged (path : String) (existing : Entries) (entries : Tree.Entries Leaf) : Value :=
  .object (merge.arrange path (level merge path existing entries))

/-- Whether the value at a place below a path is taken over as it is. -/
def Taken (path : String) (existing : Entries) (place : List String) : Prop :=
  ((Value.object existing).at? place).isSome = true ∧ merge.copies (merge.policy.pathBelow path place) = true

variable {path : String} {existing : Entries} {entries : Tree.Entries Leaf}

theorem at?_merged_of_known (distinct : (Table.names entries).Nodup) {name : String} {tree : Tree Leaf}
    (known : Table.find? name entries = some tree) (rest : List String) :
    (merged merge path existing entries).at? (name :: rest) =
      (merge.treeValue (merge.policy.join path name) (Table.find? name existing) tree).at? rest := by
  rw [merged, Value.at?, find?_arrange_level merge distinct (Table.mem_of_find? known)]
  rfl

theorem at?_merged_of_unknown (distinct : (Table.names entries).Nodup) (names : (Table.names existing).Nodup)
    {name : String} (lacks : Table.find? name entries = none) (rest : List String) :
    (merged merge path existing entries).at? (name :: rest) =
      ((Table.find? name existing).bind (merge.unused? (merge.policy.join path name))).bind (Value.at? rest) := by
  rw [merged, Value.at?, find?_arrange_unknown merge distinct names lacks]

theorem taken_single_iff {name : String} :
    Taken merge path existing [name] ↔
      (Table.find? name existing).isSome = true ∧ merge.copies (merge.policy.join path name) = true := by
  rw [Taken, at?_single]
  rfl

theorem taken_append_iff (way : List String) (name : String) (rest : List String) :
    Taken merge path existing (way ++ name :: rest) ↔
      Taken merge (merge.policy.pathBelow path way) (entriesAt way existing) (name :: rest) := by
  rw [Taken, Taken, at?_entriesAt, Policy.pathBelow_append]

theorem made_of_not_taken {name : String} (own : ¬ Taken merge path existing [name]) :
    ((Table.find? name existing).filter fun _ => merge.copies (merge.policy.join path name)) = none := by
  rw [taken_single_iff] at own
  cases found : Table.find? name existing <;> simp_all [Option.filter]

theorem treeValue_eq_merged {existing : Option Value}
    (made : existing.filter (fun _ => merge.copies path) = none) :
    merge.treeValue path existing (.branch entries) =
      merged merge path ((existing.map Value.entries).getD []) entries :=
  treeValue_branch merge made entries

/-- Along branches of the tree of which none is taken over, the result is what the merge makes of the last one. -/
theorem at?_merged_append {way : List String} {inner : Tree.Entries Leaf} (distinct : (Tree.branch entries).Distinct)
    (leads : Tree.at? way (.branch entries) = some (.branch inner))
    (own : ∀ above, above <+: way → above ≠ [] → ¬ Taken merge path existing above) (rest : List String) :
    (merged merge path existing entries).at? (way ++ rest) =
      (merged merge (merge.policy.pathBelow path way) (entriesAt way existing) inner).at? rest := by
  induction way generalizing path existing entries with
  | nil =>
    obtain rfl := Tree.branch.inj (Option.some.inj leads)
    rfl
  | cons name way ih =>
    obtain ⟨tree, known, leadsOn⟩ := Option.bind_eq_some_iff.mp leads
    have member := Table.mem_of_find? known
    cases tree with
    | leaf value => cases way <;> cases leadsOn
    | branch deeper =>
      have made := made_of_not_taken merge (own [name] (by simp) (List.cons_ne_nil _ _))
      rw [List.cons_append, at?_merged_of_known merge distinct.names known, treeValue_eq_merged merge made]
      refine ih (distinct.inside _ member) leadsOn ?_
      intro above before some taken
      obtain ⟨next, others, rfl⟩ := List.exists_cons_of_ne_nil some
      exact own (name :: next :: others) (by simpa using before) (List.cons_ne_nil _ _)
        ((taken_append_iff merge [name] next others).mpr taken)

/-- Where a place leaves the tree, what stays of the catalog's value there is found again. -/
theorem at?_merged_of_left {way : List String} {inner : Tree.Entries Leaf} (distinct : (Tree.branch entries).Distinct)
    (distinctExisting : (Value.object existing).Distinct)
    (leads : Tree.at? way (.branch entries) = some (.branch inner)) {name : String}
    (lacks : Table.find? name inner = none)
    (own : ∀ above, above <+: way → above ≠ [] → ¬ Taken merge path existing above) (rest : List String) :
    (merged merge path existing entries).at? (way ++ name :: rest) =
      (((Value.object existing).at? (way ++ [name])).bind
        (merge.unused? (merge.policy.pathBelow path (way ++ [name])))).bind (Value.at? rest) := by
  have names := (distinct_entriesAt distinctExisting way).names
  rw [at?_merged_append merge distinct leads own, at?_merged_of_unknown merge (distinct.of_at? leads).names names lacks,
    ← at?_entriesAt, at?_single, Policy.pathBelow_append]
  rfl

/-- Where the tree has anything, a value that is taken over is found again as it is. -/
theorem at?_merged_of_taken {place : List String} (distinct : (Tree.branch entries).Distinct) (somewhere : place ≠ [])
    (known : (Tree.at? place (.branch entries)).isSome = true) (taken : Taken merge path existing place) :
    (merged merge path existing entries).at? place = (Value.object existing).at? place := by
  induction place generalizing path existing entries with
  | nil => exact absurd rfl somewhere
  | cons name rest ih =>
    obtain ⟨tree, knownOn⟩ := Option.isSome_iff_exists.mp known
    obtain ⟨inner, here, below⟩ := Option.bind_eq_some_iff.mp knownOn
    rw [at?_merged_of_known merge distinct.names here]
    cases copied : merge.copies (merge.policy.join path name) with
    | true =>
      obtain ⟨value, held⟩ := Option.isSome_iff_exists.mp taken.1
      obtain ⟨old, found, _⟩ := Option.bind_eq_some_iff.mp held
      rw [Value.at?, found, treeValue_eq_copy merge copied, Option.bind_some]
    | false =>
      have made : (Table.find? name existing).filter (fun _ => merge.copies (merge.policy.join path name)) = none := by
        simp [copied]
      cases rest with
      | nil => exact absurd taken.2 (by simpa [Policy.pathBelow] using copied)
      | cons next others =>
        cases inner with
        | leaf leaf => cases below
        | branch deeper =>
          have takenOn := (taken_append_iff merge [name] next others).mp taken
          have knownBelow : (Tree.at? (next :: others) (.branch deeper)).isSome = true := by simp [below]
          have same := ih (distinct.inside _ (Table.mem_of_find? here)) (List.cons_ne_nil _ _) knownBelow takenOn
          rw [treeValue_eq_merged merge made]
          exact same.trans (at?_entriesAt [name] next others existing)

/-- Whatever lies below a value that is taken over is found again with it. -/
theorem at?_merged_below_taken {way above : List String} (distinct : (Tree.branch entries).Distinct)
    (known : (Tree.at? way (.branch entries)).isSome = true) (before : above <+: way) (somewhere : above ≠ [])
    (taken : Taken merge path existing above) (rest : List String) :
    (merged merge path existing entries).at? (way ++ rest) = (Value.object existing).at? (way ++ rest) := by
  have knownAbove := Tree.at?_isSome_of_prefix before known
  obtain ⟨further, rfl⟩ := before
  rw [List.append_assoc, Value.at?_append, Value.at?_append,
    at?_merged_of_taken merge distinct somewhere knownAbove taken]

/-- What a catalog holds where no leaf is on the way: the place is one of the tree, or the value is found again as it
is, or it is what stays of a value that only the catalog has. -/
theorem at?_merged_cases (distinct : (Tree.branch entries).Distinct)
    (distinctExisting : (Value.object existing).Distinct) {place : List String} {value : Value}
    (held : (Value.object existing).at? place = some value)
    (free : ∀ above, above <+: place → above ≠ place → Tree.leafAt? above (.branch entries) = none) :
    (Tree.at? place (.branch entries)).isSome = true ∨
      (merged merge path existing entries).at? place = some value ∨
      ∃ above rest old, place = above ++ rest ∧ old.Distinct ∧ old.at? rest = some value ∧
        (merged merge path existing entries).at? place =
          (merge.unused? (merge.policy.pathBelow path above) old).bind (Value.at? rest) := by
  rcases at?_cases free with known | ⟨way, name, rest, inner, rfl, leads, lacks⟩
  · exact Or.inl known
  · refine Or.inr ?_
    by_cases taken : ∃ above, above <+: way ∧ above ≠ [] ∧ Taken merge path existing above
    · obtain ⟨above, before, some, taken⟩ := taken
      left
      rw [at?_merged_below_taken merge distinct (Option.isSome_of_mem leads) before some taken, held]
    · right
      have own (above : List String) (before : above <+: way) (some : above ≠ []) :
          ¬ Taken merge path existing above := fun here => taken ⟨above, before, some, here⟩
      rw [List.append_cons, Value.at?_append] at held
      obtain ⟨old, found, heldBelow⟩ := Option.bind_eq_some_iff.mp held
      refine ⟨way ++ [name], rest, old, List.append_cons .., distinctExisting.of_at? found, heldBelow, ?_⟩
      rw [at?_merged_of_left merge distinct distinctExisting leads lacks own, found, Option.bind_some]

section Reconcile

variable (built : Built) (existing : Option Value) (locale : String) (isPrimary : Bool) (policy : Policy)

theorem object_reconcile :
    Value.object (reconcile built existing locale isPrimary policy) =
      merged ⟨built, locale, isPrimary, policy⟩ "" ((existing.map Value.entries).getD []) built.entries := rfl

theorem taken_iff {place : List String} (somewhere : place ≠ []) :
    Taken ⟨built, locale, isPrimary, policy⟩ "" ((existing.map Value.entries).getD []) place ↔
      TakenOver built policy existing place := by
  simp [Taken, TakenOver, at?_known somewhere, Merge.copies, Merge.preserves, Policy.pathOf]

end Reconcile

end Proofs.MergedPlaces

end Phrasebook
