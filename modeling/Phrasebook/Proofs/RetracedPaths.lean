import Phrasebook.Proofs.BuiltPlaces
import Phrasebook.Proofs.Pruning
import Phrasebook.Proofs.WholeObjects

/-! The paths under which a merge decides about the leaves of a tree. A merge puts the path of a leaf together on its way
down, segment by segment, and so gets back the path that the leaf was placed by; only where the first segment is empty it
is lost, because nothing has been put together yet. -/

namespace Phrasebook

open Catalog

/-- A leaf that a merge comes to, with the path that it has on the way there and with what the catalog has there. -/
structure Visit where
  path : String
  existing : Option Value
  leaf : Leaf

namespace Merge

mutual

/-- The leaves that a merge comes to in a tree, in order. Where a value is taken over nothing below it is looked at. -/
def visitsIn (merge : Merge) (path : String) (existing : Option Value) : Tree Leaf → List Visit
  | .leaf leaf => [⟨path, existing, leaf⟩]
  | .branch entries =>
    if existing.isSome && merge.copies path then []
    else visitsAt merge path ((existing.map Value.entries).getD []) entries

def visitsAt (merge : Merge) (path : String) (existing : Entries) : List (String × Tree Leaf) → List Visit
  | [] => []
  | (segment, tree) :: rest =>
    visitsIn merge (merge.policy.join path segment) (Table.find? segment existing) tree ++
      visitsAt merge path existing rest

end

/-- The leaves that a merge with a catalog comes to. -/
def visits (merge : Merge) (existing : Entries) : List Visit := merge.visitsAt "" existing merge.built.entries

/-- What is decided about a leaf under the path that it is visited by. -/
def decided (merge : Merge) (visit : Visit) : Value := merge.treeValue visit.path visit.existing (.leaf visit.leaf)

/-- What is told about a leaf under the path that it is visited by. -/
def told (merge : Merge) (visit : Visit) : List Message :=
  merge.treeMessages visit.path visit.existing (.leaf visit.leaf)

end Merge

namespace Proofs.RetracedPaths

open Built BuiltPlaces JoinedLeaves MergedPlaces Placement Places Segments Survival
open Pruning (startsWith_iff)
open WholeObjects (pathBelow_eq_join pathOf_segmentsOf)

section Visits

variable (merge : Merge)

mutual

/-- What a merge tells is what it tells about the leaves that it comes to. -/
theorem treeMessages_eq (path : String) (existing : Option Value) (tree : Tree Leaf) :
    merge.treeMessages path existing tree = (merge.visitsIn path existing tree).flatMap merge.told := by
  match tree with
  | .leaf leaf => simp [Merge.visitsIn, Merge.told]
  | .branch entries =>
    rw [Merge.treeMessages, Merge.visitsIn]
    split
    · rfl
    · exact entryMessages_eq path _ entries
termination_by structural tree

theorem entryMessages_eq (path : String) (existing : Entries) (entries : List (String × Tree Leaf)) :
    merge.entryMessages path existing entries = (merge.visitsAt path existing entries).flatMap merge.told := by
  match entries with
  | [] => rfl
  | (segment, tree) :: rest =>
    rw [Merge.entryMessages, Merge.visitsAt, List.flatMap_append, treeMessages_eq, entryMessages_eq path existing rest]
termination_by structural entries

end

theorem mem_visitsAt {path : String} {existing : Entries} {entries : Tree.Entries Leaf} {visit : Visit} :
    visit ∈ merge.visitsAt path existing entries ↔
      ∃ entry ∈ entries,
        visit ∈ merge.visitsIn (merge.policy.join path entry.1) (Table.find? entry.1 existing) entry.2 := by
  induction entries with
  | nil => simp [Merge.visitsAt]
  | cons entry rest ih => rw [Merge.visitsAt, List.mem_append, ih, List.exists_mem_cons_iff]

/-- Whether a visit belongs to a place below a path: the leaf stands there, its path was put together on the way there,
and what is made of tree and catalog has there what is decided about the leaf under that path. -/
structure Stands (front : String) (existing : Option Value) (tree : Tree Leaf) (made : Value) (visit : Visit)
    (place : List String) : Prop where
  leaf : Tree.leafAt? place tree = some visit.leaf
  path : visit.path = merge.policy.pathBelow front place
  existing : visit.existing = existing.bind (Value.at? place)
  decided : made.at? place = some (merge.decided visit)

variable {merge}

theorem Stands.inside {front : String} (existing : Option Value) {entries : Tree.Entries Leaf}
    {entry : String × Tree Leaf} {visit : Visit} {place : List String} (distinct : (Table.names entries).Nodup)
    (member : entry ∈ entries)
    (stands : Stands merge (merge.policy.join front entry.1)
      (Table.find? entry.1 ((existing.map Value.entries).getD [])) entry.2
      (merge.treeValue (merge.policy.join front entry.1)
        (Table.find? entry.1 ((existing.map Value.entries).getD [])) entry.2) visit place) :
    Stands merge front existing (.branch entries) (merged merge front ((existing.map Value.entries).getD []) entries)
      visit (entry.1 :: place) := by
  have known := (Table.find?_eq_some_iff distinct).mpr member
  constructor
  case leaf =>
    rw [leafAt?_cons_branch, known]
    exact stands.leaf
  case path => exact stands.path
  case existing =>
    rw [← at?_known (List.cons_ne_nil entry.1 place)]
    exact stands.existing
  case decided =>
    rw [at?_merged_of_known merge distinct known]
    exact stands.decided

theorem exists_place_in {tree : Tree Leaf} (distinct : tree.Distinct) {front : String} {existing : Option Value}
    {visit : Visit} (member : visit ∈ merge.visitsIn front existing tree) :
    ∃ place, Stands merge front existing tree (merge.treeValue front existing tree) visit place := by
  induction tree using Tree.induction generalizing front existing with
  | leaf leaf =>
    rw [Merge.visitsIn, List.mem_singleton] at member
    subst member
    exact ⟨[], rfl, rfl, (Option.bind_fun_some existing).symm, rfl⟩
  | branch entries ih =>
    rw [Merge.visitsIn] at member
    split at member
    · cases member
    next notTaken =>
      have made : existing.filter (fun _ => merge.copies front) = none := by
        cases existing <;> simp_all [Option.filter]
      obtain ⟨entry, inside, visited⟩ := (mem_visitsAt merge).mp member
      obtain ⟨place, stands⟩ := ih entry inside (distinct.inside entry inside) visited
      rw [treeValue_eq_merged merge made]
      exact ⟨_, Stands.inside existing distinct.names inside stands⟩

theorem exists_place {existing : Entries} {visit : Visit} (member : visit ∈ merge.visits existing) :
    ∃ place, Stands merge "" (some (.object existing)) (.branch merge.built.entries) (.object (merge.content existing))
      visit place := by
  obtain ⟨entry, inside, visited⟩ := (mem_visitsAt merge).mp member
  have distinct := merge.built.distinct
  obtain ⟨place, stands⟩ := exists_place_in (distinct.inside entry inside) visited
  exact ⟨_, Stands.inside (some (.object existing)) distinct.names inside stands⟩

/-- A merge comes to every leaf that no value taken over is on the way to. -/
theorem mem_visitsAt_of_leaf {front : String} {existing : Entries} {entries : Tree.Entries Leaf} {place : List String}
    {leaf : Leaf} (found : Tree.leafAt? place (.branch entries) = some leaf)
    (own : ∀ above, above <+: place → above ≠ [] → above ≠ place → ¬ Taken merge front existing above) :
    ⟨merge.policy.pathBelow front place, (Value.object existing).at? place, leaf⟩ ∈
      merge.visitsAt front existing entries := by
  induction place generalizing front existing entries with
  | nil => cases found
  | cons name rest ih =>
    obtain ⟨tree, known, below⟩ := Option.bind_eq_some_iff.mp found
    refine (mem_visitsAt merge).mpr ⟨(name, tree), Table.mem_of_find? known, ?_⟩
    cases tree with
    | leaf value =>
      cases rest with
      | cons => cases below
      | nil =>
        obtain rfl := Option.some.inj below
        rw [at?_single, Merge.visitsIn]
        exact List.mem_singleton_self _
    | branch deeper =>
      cases rest with
      | nil => cases below
      | cons next others =>
        have notTaken := own [name] (by simp) (List.cons_ne_nil _ _) (by simp)
        rw [taken_single_iff, ← Bool.and_eq_true] at notTaken
        have held : (Value.object existing).at? (name :: next :: others) =
            (Value.object (entriesAt [name] existing)).at? (next :: others) :=
          (at?_entriesAt [name] next others existing).symm
        rw [Merge.visitsIn, if_neg notTaken, held]
        refine ih below fun above before some different taken => ?_
        obtain ⟨first, further, rfl⟩ := List.exists_cons_of_ne_nil some
        exact own (name :: first :: further) (by simpa using before) (List.cons_ne_nil _ _) (by simpa using different)
          ((taken_append_iff merge [name] first further).mpr taken)

end Visits

section Paths

variable {policy : Policy} {mark : String}

/-- Put together, a path is never longer than its segments with the marks between them. -/
theorem length_pathBelow_le (marked : policy.keySeparator.mark? = some mark) (front : String) (place : List String) :
    (policy.pathBelow front place).length ≤ (Text.join mark (front :: place)).length := by
  induction place generalizing front with
  | nil => simp [Policy.pathBelow, Text.join]
  | cons name rest ih =>
    by_cases empty : front = ""
    · have longer : (Text.join mark ("" :: name :: rest)).length = mark.length + (Text.join mark (name :: rest)).length := by
        rw [Text.join, String.intercalate_cons_cons, String.empty_append, String.length_append, Text.join]
      have start : policy.join "" name = name := by simp [Policy.join, marked]
      have shorter := ih name
      rw [empty, Policy.pathBelow, List.foldl_cons, start, ← Policy.pathBelow]
      omega
    · rw [pathBelow_eq_join marked empty]

theorem split_append (some : mark ≠ "") (path : String) :
    Text.split mark (mark ++ path) = "" :: Text.split mark path := by
  have marked := toList_ne_nil some
  have found : Text.cut? mark.toList (mark.toList ++ path.toList) = Option.some ([], path.toList) := by
    obtain ⟨first, rest, chars⟩ := List.exists_cons_of_ne_nil marked
    have here := after?_append mark.toList path.toList
    rw [chars, List.cons_append] at here ⊢
    rw [Text.cut?, here]
  rw [Text.split, String.toList_append, splitChars_of_cut?_some marked found]
  rfl

/-- The segments of a path lead back to it just when the first one is not empty, or is all of the path. -/
theorem pathOf_split_iff (marked : policy.keySeparator.mark? = some mark) (path : String) :
    policy.pathOf (Text.split mark path) = path ↔ Text.startsWith mark path = false := by
  have some := mark_ne_empty marked
  cases starts : Text.startsWith mark path with
  | true =>
    obtain ⟨behind, rfl⟩ := startsWith_iff.mp starts
    obtain ⟨first, rest, parts⟩ := List.exists_cons_of_ne_nil (split_ne_nil mark behind)
    have dropped : policy.pathOf ("" :: first :: rest) = policy.pathBelow first rest := by
      simp [Policy.pathOf, Policy.pathBelow, Policy.join, marked]
    have shorter := length_pathBelow_le marked first rest
    have marks : 0 < mark.length := by
      rw [Nat.pos_iff_ne_zero, ne_eq, String.length_eq_zero_iff]
      exact some
    rw [← parts, join_split] at shorter
    rw [split_append some, parts, dropped]
    refine iff_of_false (fun same => ?_) (by simp)
    rw [same, String.length_append] at shorter
    omega
  | false =>
    refine iff_of_true ?_ rfl
    obtain ⟨first, rest, parts⟩ := List.exists_cons_of_ne_nil (split_ne_nil mark path)
    by_cases empty : first = ""
    · cases rest with
      | nil =>
        have whole := join_split mark path
        rw [parts, empty, Text.join, String.intercalate_singleton] at whole
        have lost : policy.pathOf [""] = "" := by simp [Policy.pathOf, Policy.pathBelow, Policy.join, marked]
        rw [parts, empty, lost, whole]
      | cons next others =>
        have whole := join_split mark path
        rw [parts, empty, Text.join, String.intercalate_cons_cons, String.empty_append] at whole
        rw [startsWith_iff.mpr ⟨_, whole.symm⟩] at starts
        cases starts
    · have named : (segmentsOf policy.keySeparator path).head? ≠ Option.some "" := by
        simpa [segmentsOf, marked, parts] using empty
      simpa [segmentsOf, marked] using pathOf_segmentsOf named

theorem pathOf_single (path : String) : policy.pathOf [path] = path := by
  unfold Policy.pathOf Policy.pathBelow Policy.join
  split <;> simp

end Paths

section Keys

variable {settings : Settings} {namespaceName locale mark : String} {keys : List Key} {policy : Policy}

/-- A leaf of the tree of keys is found under its own key just when the key does not begin with the mark, or lies below a
text and stands on the root for that. -/
theorem pathOf_place_iff (marked : settings.extraction.keySeparator.mark? = some mark)
    (same : policy.keySeparator = settings.extraction.keySeparator) {place : List String} {leaf : Leaf}
    (found : Tree.leafAt? place (.branch (ofKeys settings keys namespaceName locale).entries) = some leaf) :
    policy.pathOf place = leaf.key ↔
      (Text.startsWith mark leaf.key = true → BelowText settings namespaceName locale keys mark leaf.key) := by
  obtain ⟨path, member, _, here⟩ := (leafAt?_entriesOf _ nodup_names_leavesIn place leaf).mp found
  obtain rfl : leaf.key = path := key_of_mem_leaves member
  simp only [placeIn, marked] at here
  rw [← isBelowText_leavesIn_iff marked, here]
  cases below : isBelowText mark (leavesIn settings namespaceName locale keys) leaf.key with
  | true =>
    rw [place_of_below below]
    exact iff_of_true (pathOf_single leaf.key) fun _ => rfl
  | false =>
    rw [place_of_not_below below, pathOf_split_iff (same ▸ marked)]
    simp

/-- A merge of the tree of keys comes to every leaf that no value taken over is on the way to. It tells what it tells
about the leaves that it comes to, and has at the place of each what it decides about the leaf, both under the path put
together on the way there. That path is the key of the leaf just when the key does not begin with the mark, or lies below
a text and stands on the root for that. -/
theorem visits_of_keys (settings : Settings) (mark : String)
    (marked : settings.extraction.keySeparator.mark? = some mark) (keys : List Key) (namespaceName locale : String)
    (existing : Option Value) (isPrimary : Bool) (policy : Policy)
    (same : policy.keySeparator = settings.extraction.keySeparator) :
    let merge : Merge := ⟨ofKeys settings keys namespaceName locale, locale, isPrimary, policy⟩
    let known := (existing.map Value.entries).getD []
    (∀ place leaf, Tree.leafAt? place (.branch merge.built.entries) = some leaf →
      (∀ above, above <+: place → above ≠ [] → above ≠ place → ¬ TakenOver merge.built policy existing above) →
      ∃ visit ∈ merge.visits known, visit.leaf = leaf ∧ visit.path = policy.pathOf place) ∧
    merge.messages known = (merge.visits known).flatMap merge.told ∧
    ∀ visit ∈ merge.visits known,
      (∃ place,
        Tree.leafAt? place (.branch merge.built.entries) = some visit.leaf ∧
        visit.existing = (Value.object known).at? place ∧
        (Value.object (reconcile merge.built existing locale isPrimary policy)).at? place =
          some (merge.decided visit)) ∧
      (visit.path = visit.leaf.key ↔
        (Text.startsWith mark visit.leaf.key = true →
          BelowText settings namespaceName locale keys mark visit.leaf.key)) := by
  intro merge known
  refine ⟨fun place leaf found own => ?_, entryMessages_eq merge "" known _, fun visit member => ?_⟩
  · refine ⟨_, mem_visitsAt_of_leaf found fun above before some different => ?_, rfl, rfl⟩
    exact mt (taken_iff _ existing locale isPrimary policy some).mp (own above before some different)
  obtain ⟨place, stands⟩ := exists_place member
  refine ⟨⟨place, stands.leaf, stands.existing, stands.decided⟩, ?_⟩
  rw [stands.path]
  exact pathOf_place_iff marked same stands.leaf

end Keys

/-- A key with an empty segment inside, one with an empty segment in front, and one below that. -/
def spacedKeys : List Key := [plainKey "app..title", plainKey ".old", plainKey ".old.x"]

def spacedMerge : Merge := ⟨ofKeys english spacedKeys "translation" "en", "en", true, {}⟩

theorem spaced_keys_retraced :
    (∃ visit ∈ spacedMerge.visits [], visit.path = ".old.x" ∧ visit.leaf.key = ".old.x") ∧
      ∀ visit ∈ spacedMerge.visits [], visit.leaf.key = "app..title" → visit.path = "app..title" := by
  have marked : english.extraction.keySeparator.mark? = some "." := by with_unfolding_all decide
  obtain ⟨comes, _, paths⟩ := visits_of_keys english "." marked spacedKeys "translation" "en" none true {} rfl
  constructor
  · have found : Tree.leafAt? [".old.x"] (.branch spacedMerge.built.entries) = some ⟨".old.x", ".old.x", false, false⟩ := by
      with_unfolding_all decide
    obtain ⟨visit, member, leaf, _⟩ := comes _ _ found fun above _ _ _ taken => by cases taken.1
    have key : visit.leaf.key = ".old.x" := congrArg Leaf.key leaf
    have below : BelowText english "translation" "en" spacedKeys "." ".old.x" :=
      (isBelowText_leavesIn_iff marked).mp (by with_unfolding_all decide)
    exact ⟨visit, member, ((paths visit member).2.mpr fun _ => key ▸ below).trans key, key⟩
  · intro visit member key
    refine ((paths visit member).2.mpr fun starts => ?_).trans key
    rw [key] at starts
    exact absurd starts (by decide)

def hiddenMenu : Key := { text := ".menu", namespaceName := "translation", isOpaque := true }

def hiddenMerge : Merge := ⟨ofKeys english [hiddenMenu] "translation" "en", "en", true, {}⟩

/-- An object is lost that its key stands for, because the merge comes to it under another path. -/
theorem object_of_leading_mark_is_lost :
    ∃ existing : Entries,
      (Value.object existing).at? ["", "menu"] = some (.object [("title", .text "Menu")]) ∧
      (hiddenMerge.visits existing).map (fun visit => (visit.path, visit.leaf.key)) = [("menu", ".menu")] ∧
      reconcile hiddenMerge.built (some (.object existing)) "en" true {} =
        [("", .object [("menu", .text ".menu")])] := by
  refine ⟨[("", .object [("menu", .object [("title", .text "Menu")])])], rfl, ?_, ?_⟩
  · with_unfolding_all decide
  · with_unfolding_all rfl

end Proofs.RetracedPaths

end Phrasebook
