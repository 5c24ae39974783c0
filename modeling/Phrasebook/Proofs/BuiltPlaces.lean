import Phrasebook.Proofs.Survival

/-! The whole tree of keys where a mark separates segments. Every path that the keys ask for has one place, nested along
its segments or on the root when it lies below a text, unless it stands for an object that a nested path lies in; the
tree has no other leaves and no empty branches, and what a leaf says of itself is what one of its keys says. -/

namespace Phrasebook.Proofs.BuiltPlaces

open Built JoinedLeaves Placement Places Segments Survival Text

/-- Whether one of the keys that ask for a path makes a leaf of it of which something holds. -/
def Makes (settings : Settings) (namespaceName locale : String) (keys : List Key) (holds : Leaf → Bool)
    (path : String) : Prop :=
  ∃ key ∈ keys, key.namespaceName = namespaceName ∧
    ∃ leaf, (path, leaf) ∈ leavesOf settings locale key ∧ holds leaf = true

/-- Whether a path lies below another one that keys ask for, and for a text. -/
def BelowText (settings : Settings) (namespaceName locale : String) (keys : List Key) (mark path : String) : Prop :=
  ∃ above, Asked settings namespaceName locale keys above ∧
    ¬ Makes settings namespaceName locale keys Leaf.isOpaque above ∧ Above mark above path

/-- Whether a path stands for an object and another path lies in it that the tree has along its segments. -/
def Covered (settings : Settings) (namespaceName locale : String) (keys : List Key) (mark path : String) : Prop :=
  Makes settings namespaceName locale keys Leaf.isOpaque path ∧
    ∃ below, HasPlace (ofKeys settings keys namespaceName locale) below (split mark below) ∧ Above mark path below

variable {settings : Settings} {namespaceName locale : String} {keys : List Key} {mark path : String}

theorem mem_asked_iff {leaf : Leaf} :
    leaf ∈ asked path ((keys.filter fun key => key.namespaceName = namespaceName).flatMap (leavesOf settings locale)) ↔
      ∃ key ∈ keys, key.namespaceName = namespaceName ∧ (path, leaf) ∈ leavesOf settings locale key := by
  simp only [asked, List.mem_map, List.mem_filter, List.mem_flatMap, decide_eq_true_eq]
  constructor
  · rintro ⟨entry, ⟨⟨key, ⟨member, here⟩, asks⟩, rfl⟩, rfl⟩
    exact ⟨key, member, here, asks⟩
  · rintro ⟨key, member, here, asks⟩
    exact ⟨(path, leaf), ⟨⟨key, ⟨member, here⟩, asks⟩, rfl⟩, rfl⟩

theorem any_asked_iff {holds : Leaf → Bool} :
    (asked path ((keys.filter fun key => key.namespaceName = namespaceName).flatMap (leavesOf settings locale))).any
        holds = true ↔ Makes settings namespaceName locale keys holds path := by
  rw [List.any_eq_true]
  constructor
  · rintro ⟨leaf, member, held⟩
    obtain ⟨key, inside, here, asks⟩ := mem_asked_iff.mp member
    exact ⟨key, inside, here, leaf, asks, held⟩
  · rintro ⟨key, inside, here, leaf, asks, held⟩
    exact ⟨leaf, mem_asked_iff.mpr ⟨key, inside, here, asks⟩, held⟩

/-- A leaf stands for an object, or has its text from the source, when one of the keys makes it so. -/
theorem made_iff {leaf : Leaf} (member : (path, leaf) ∈ leavesIn settings namespaceName locale keys) :
    (leaf.isOpaque = true ↔ Makes settings namespaceName locale keys Leaf.isOpaque path) ∧
      (leaf.explicit = true ↔ Makes settings namespaceName locale keys Leaf.explicit path) := by
  have found := (Table.find?_eq_some_iff nodup_names_leavesIn).mpr member
  rw [leavesIn, find?_leaves] at found
  obtain ⟨first, _, rfl⟩ := Option.map_eq_some_iff.mp found
  exact ⟨any_asked_iff, any_asked_iff⟩

/-- Below the root of a full tree there is no empty branch. -/
theorem ne_nil_of_at? {spot : List String} {entries inner : Tree.Entries Leaf}
    (full : ∀ entry ∈ entries, entry.2.Full) (somewhere : spot ≠ [])
    (found : Tree.at? spot (.branch entries) = some (.branch inner)) : inner ≠ [] := by
  induction spot generalizing entries with
  | nil => exact absurd rfl somewhere
  | cons name rest ih =>
    obtain ⟨tree, named, below⟩ := Option.bind_eq_some_iff.mp found
    have fullTree := full _ (Table.mem_of_find? named)
    cases fullTree with
    | leaf value => cases rest <;> cases below
    | branch some inside =>
      cases rest with
      | nil =>
        obtain rfl := Tree.branch.inj (Option.some.inj below)
        exact some
      | cons next others => exact ih inside (List.cons_ne_nil _ _) below

section Marked

variable (marked : settings.extraction.keySeparator.mark? = some mark)
include marked

theorem isBelowText_leavesIn_iff :
    isBelowText mark (leavesIn settings namespaceName locale keys) path = true ↔
      BelowText settings namespaceName locale keys mark path := by
  rw [isBelowText_iff (mark_ne_empty marked) nodup_names_leavesIn]
  constructor
  · rintro ⟨entry, member, isText, above⟩
    refine ⟨entry.1, mem_names_leavesIn.mp (List.mem_map_of_mem member), ?_, above⟩
    rw [← (made_iff member).1, isText]
    exact Bool.false_ne_true
  · rintro ⟨other, asks, isText, above⟩
    obtain ⟨entry, member, rfl⟩ := List.mem_map.mp (mem_names_leavesIn.mpr asks)
    refine ⟨entry, member, ?_, above⟩
    rw [← (made_iff member).1, Bool.not_eq_true] at isText
    exact isText

/-- The tree has a path at the one place of its leaf, if that is not left out. -/
theorem hasPlace_iff_placed {spot : List String} :
    HasPlace (ofKeys settings keys namespaceName locale) path spot ↔
      ∃ leaf, (path, leaf) ∈ leavesIn settings namespaceName locale keys ∧
        Placed mark (leavesIn settings namespaceName locale keys) (path, leaf) ∧
        spot = place mark (leavesIn settings namespaceName locale keys) path := by
  have held (leaf : Leaf) := leafAt?_entriesOf settings.extraction.keySeparator
    (nodup_names_leavesIn : (Table.names (leavesIn settings namespaceName locale keys)).Nodup) spot leaf
  simp only [PlacedIn, placeIn, marked, Option.some.injEq, forall_eq'] at held
  constructor
  · rintro ⟨leaf, found, named⟩
    obtain ⟨other, member, placed, here⟩ := (held leaf).mp found
    obtain rfl : other = path := (key_of_mem_leaves member).symm.trans named
    exact ⟨leaf, member, placed, here⟩
  · rintro ⟨leaf, member, placed, here⟩
    exact ⟨leaf, (held leaf).mpr ⟨path, member, placed, here⟩, key_of_mem_leaves member⟩

/-- A path that the tree has along its segments lies below no text. -/
theorem free_of_nested (nested : HasPlace (ofKeys settings keys namespaceName locale) path (split mark path)) :
    isBelowText mark (leavesIn settings namespaceName locale keys) path = false := by
  obtain ⟨leaf, _, _, here⟩ := (hasPlace_iff_placed marked).mp nested
  by_contra below
  rw [Bool.not_eq_false] at below
  rw [place_of_below below] at here
  exact split_ne_singleton (mark_ne_empty marked) below here

/-- The paths above those that lie below no text are those above the ones that the tree has along their segments: from
every path down there is one that is left out for no other. -/
theorem mem_coveredPaths_leavesIn :
    path ∈ coveredPaths mark (leavesIn settings namespaceName locale keys) ↔
      ∃ below, HasPlace (ofKeys settings keys namespaceName locale) below (split mark below) ∧
        Above mark path below := by
  rw [mem_coveredPaths_iff (mark_ne_empty marked)]
  constructor
  · rintro ⟨below, asks, free, before, different⟩
    obtain ⟨entry, member, placed, entryFree, further⟩ := exists_placed_from (mark_ne_empty marked) asks free
    refine ⟨entry.1, (hasPlace_iff_placed marked).mpr ⟨entry.2, member, placed, ?_⟩, before.trans further, ?_⟩
    · rw [place_of_not_below entryFree]
    · intro same
      have lengths := further.length_le
      rw [← same] at lengths
      exact different (before.eq_of_length_le lengths)
  · rintro ⟨below, nested, above⟩
    obtain ⟨leaf, member, _, _⟩ := (hasPlace_iff_placed marked).mp nested
    exact ⟨below, List.mem_map_of_mem member, free_of_nested marked nested, above⟩

theorem placed_iff {leaf : Leaf} (member : (path, leaf) ∈ leavesIn settings namespaceName locale keys) :
    Placed mark (leavesIn settings namespaceName locale keys) (path, leaf) ↔
      ¬ Covered settings namespaceName locale keys mark path := by
  rw [Placed, Covered, (made_iff member).1, mem_coveredPaths_leavesIn marked]

/-- A path that no nested path lies in has its one place. -/
theorem hasPlace_iff_of_uncovered (asks : Asked settings namespaceName locale keys path)
    (uncovered : ¬ Covered settings namespaceName locale keys mark path) (spot : List String) :
    HasPlace (ofKeys settings keys namespaceName locale) path spot ↔
      spot = place mark (leavesIn settings namespaceName locale keys) path := by
  obtain ⟨⟨known, leaf⟩, member, rfl⟩ := List.mem_map.mp (mem_names_leavesIn.mpr asks)
  rw [hasPlace_iff_placed marked]
  constructor
  · rintro ⟨_, _, _, here⟩
    exact here
  · intro here
    exact ⟨leaf, member, (placed_iff marked member).mpr uncovered, here⟩

end Marked

/-- The tree that keys ask for where a mark separates segments. A path stands along its segments when it lies below no
text and on the root when it does, at that one place; it has none just when it stands for an object that a path nested
in the tree lies in. There are no other leaves and no empty branches below the root. -/
theorem places_of_keys (settings : Settings) (mark : String)
    (marked : settings.extraction.keySeparator.mark? = some mark) (namespaceName locale : String) (keys : List Key) :
    (∀ path, Asked settings namespaceName locale keys path → ¬ Covered settings namespaceName locale keys mark path →
      (¬ BelowText settings namespaceName locale keys mark path →
        ∀ spot, HasPlace (ofKeys settings keys namespaceName locale) path spot ↔ spot = split mark path) ∧
      (BelowText settings namespaceName locale keys mark path →
        ∀ spot, HasPlace (ofKeys settings keys namespaceName locale) path spot ↔ spot = [path])) ∧
    (∀ path, Covered settings namespaceName locale keys mark path →
      ∀ spot, ¬ HasPlace (ofKeys settings keys namespaceName locale) path spot) ∧
    (∀ spot leaf, Tree.leafAt? spot (.branch (ofKeys settings keys namespaceName locale).entries) = some leaf →
      Asked settings namespaceName locale keys leaf.key ∧
      (leaf.isOpaque = true ↔ Makes settings namespaceName locale keys Leaf.isOpaque leaf.key) ∧
      (leaf.explicit = true ↔ Makes settings namespaceName locale keys Leaf.explicit leaf.key)) ∧
    (∀ spot entries, spot ≠ [] →
      Tree.at? spot (.branch (ofKeys settings keys namespaceName locale).entries) = some (.branch entries) →
      entries ≠ []) := by
  refine ⟨?_, ?_, ?_, ?_⟩
  · intro path asks uncovered
    have only := hasPlace_iff_of_uncovered marked asks uncovered
    constructor
    · intro free spot
      have notBelow := mt (isBelowText_leavesIn_iff marked).mp free
      rw [only, place_of_not_below (Bool.not_eq_true _ ▸ notBelow)]
    · intro below spot
      rw [only, place_of_below ((isBelowText_leavesIn_iff marked).mpr below)]
  · intro path covered spot has
    obtain ⟨leaf, member, placed, _⟩ := (hasPlace_iff_placed marked).mp has
    exact (placed_iff marked member).mp placed covered
  · intro spot leaf found
    obtain ⟨path, member, _, _⟩ := (leafAt?_entriesOf _ nodup_names_leavesIn spot leaf).mp found
    obtain rfl : leaf.key = path := key_of_mem_leaves member
    exact ⟨mem_names_leavesIn.mp (List.mem_map_of_mem member), made_iff member⟩
  · intro spot entries somewhere found
    exact ne_nil_of_at? (full_entriesOf _ _) somewhere found

/-- An object with a key inside it, a text with a key below it, and a form of a counted key that another key gives. -/
def menuKeys : List Key :=
  [{ text := "menu", namespaceName := "translation", isOpaque := true }, plainKey "menu.open", plainKey "file.name",
    plainKey "file", { text := "item", namespaceName := "translation", plural := some {} },
    { text := "item_one", namespaceName := "translation", defaultValue := some "An item", explicitDefault := true }]

theorem places_of_menuKeys :
    (∀ spot, HasPlace (ofKeys english menuKeys "translation" "en") "menu.open" spot ↔ spot = ["menu", "open"]) ∧
      (∀ spot, HasPlace (ofKeys english menuKeys "translation" "en") "file.name" spot ↔ spot = ["file.name"]) ∧
      (∀ spot, ¬ HasPlace (ofKeys english menuKeys "translation" "en") "menu" spot) ∧
      Makes english "translation" "en" menuKeys Leaf.explicit "item_one" := by
  have marked : english.extraction.keySeparator.mark? = some "." := by with_unfolding_all decide
  have asks (path : String) (member : path ∈ Table.names (leavesIn english "translation" "en" menuKeys)) :
      Asked english "translation" "en" menuKeys path := mem_names_leavesIn.mp member
  have uncovered (path : String)
      (isText : (asked path ((menuKeys.filter fun key => key.namespaceName = "translation").flatMap
        (leavesOf english "en"))).any Leaf.isOpaque = false) :
      ¬ Covered english "translation" "en" menuKeys "." path := by
    rintro ⟨isObject, _⟩
    exact absurd (any_asked_iff.mpr isObject) (Bool.not_eq_true _ ▸ isText)
  obtain ⟨placed, leftOut, known, _⟩ := places_of_keys english "." marked "translation" "en" menuKeys
  have nested := (placed "menu.open" (asks _ (by with_unfolding_all decide)) (uncovered _ (by with_unfolding_all decide))).1
    (mt (isBelowText_leavesIn_iff marked).mpr (by with_unfolding_all decide))
  have onRoot := (placed "file.name" (asks _ (by with_unfolding_all decide)) (uncovered _ (by with_unfolding_all decide))).2
    ((isBelowText_leavesIn_iff marked).mp (by with_unfolding_all decide))
  have segments : split "." "menu.open" = ["menu", "open"] := by with_unfolding_all decide
  have inside : HasPlace (ofKeys english menuKeys "translation" "en") "menu.open" (split "." "menu.open") :=
    (nested _).mpr rfl
  have covered : Covered english "translation" "en" menuKeys "." "menu" := by
    refine ⟨any_asked_iff.mp (by with_unfolding_all decide), "menu.open", inside, ?_⟩
    unfold Above
    with_unfolding_all decide
  have counted : Tree.leafAt? ["item_one"] (.branch (ofKeys english menuKeys "translation" "en").entries) =
      some ⟨"item_one", "An item", true, false⟩ := by with_unfolding_all decide
  exact ⟨segments ▸ nested, onRoot, leftOut "menu" covered, (known _ _ counted).2.2.mp rfl⟩

end Phrasebook.Proofs.BuiltPlaces
