import Mathlib.Data.List.MinMax
import Phrasebook.Proofs.Places
import Phrasebook.Proofs.Segments

/-! Where a tree of texts holds each of its leaves. A leaf stands nested along its segments, or on the root under its
whole path when its path lies below a text; no placed leaf stands on the way to another one, so entering one never
takes another away. -/

namespace Phrasebook.Proofs.Placement

open Built Places Segments Text

variable {mark : String} {leaves : List (String × Leaf)}

def place (mark : String) (leaves : List (String × Leaf)) (path : String) : List String :=
  if isBelowText mark leaves path then [path] else split mark path

/-- Whether a leaf has a place of its own; an object with other keys below it has none. -/
def Placed (mark : String) (leaves : List (String × Leaf)) (entry : String × Leaf) : Prop :=
  ¬ (entry.2.isOpaque = true ∧ entry.1 ∈ coveredPaths mark leaves)

theorem place_of_below {path : String} (below : isBelowText mark leaves path = true) :
    place mark leaves path = [path] := if_pos below

theorem place_of_not_below {path : String} (free : isBelowText mark leaves path = false) :
    place mark leaves path = split mark path := if_neg (by simp [free])

theorem isBelowText_iff (marked : mark ≠ "") (distinct : (Table.names leaves).Nodup) {path : String} :
    isBelowText mark leaves path = true ↔
      ∃ entry ∈ leaves, entry.2.isOpaque = false ∧ Above mark entry.1 path := by
  simp only [isBelowText, List.any_eq_true, Option.any_eq_true, Bool.not_eq_true']
  constructor
  · rintro ⟨above, inside, leaf, found, isText⟩
    exact ⟨(above, leaf), Table.mem_of_find? found, isText, (mem_pathsAbove marked).mp inside⟩
  · rintro ⟨⟨above, leaf⟩, member, isText, isAbove⟩
    exact ⟨above, (mem_pathsAbove marked).mpr isAbove, leaf, (Table.find?_eq_some_iff distinct).mpr member, isText⟩

theorem mem_coveredPaths_iff (marked : mark ≠ "") {path : String} :
    path ∈ coveredPaths mark leaves ↔
      ∃ below ∈ Table.names leaves, isBelowText mark leaves below = false ∧ Above mark path below := by
  simp only [coveredPaths, List.mem_flatMap, List.mem_filter, Bool.not_eq_true', mem_pathsAbove marked, and_assoc]

theorem place_ne_nil (path : String) : place mark leaves path ≠ [] := by
  unfold place
  split
  · exact List.cons_ne_nil _ _
  · exact split_ne_nil mark path

theorem split_ne_singleton (marked : mark ≠ "") {path : String} (below : isBelowText mark leaves path = true) :
    split mark path ≠ [path] := by
  intro whole
  simp only [isBelowText, List.any_eq_true, mem_pathsAbove marked] at below
  obtain ⟨above, ⟨before, different⟩, _⟩ := below
  rw [whole] at before different
  rcases List.prefix_cons_iff.mp before with empty | ⟨rest, same, inside⟩
  · exact split_ne_nil mark above empty
  · exact different (same.trans (by simpa using inside))

/-- A path has one place among different leaves just when it lies below a text in both or in neither. -/
theorem place_eq_place_iff (marked : mark ≠ "") {others : List (String × Leaf)} {path : String} :
    place mark leaves path = place mark others path ↔
      isBelowText mark leaves path = isBelowText mark others path := by
  cases below : isBelowText mark leaves path <;> cases otherBelow : isBelowText mark others path
  · simp [place, below, otherBelow]
  · simp [place, below, otherBelow, split_ne_singleton marked otherBelow]
  · simp [place, below, otherBelow, (split_ne_singleton marked below).symm]
  · simp [place, below, otherBelow]

/-- Of two placed leaves neither stands at the place of the other, on the way to it or below it. -/
theorem eq_of_place_above (marked : mark ≠ "") (distinct : (Table.names leaves).Nodup) {first second : String × Leaf}
    (firstMember : first ∈ leaves) (secondMember : second ∈ leaves) (placed : Placed mark leaves first)
    (before : place mark leaves first.1 <+: place mark leaves second.1) : first.1 = second.1 := by
  cases firstBelow : isBelowText mark leaves first.1 with
  | true =>
    rw [place_of_below firstBelow] at before
    cases secondBelow : isBelowText mark leaves second.1 with
    | true =>
      rw [place_of_below secondBelow] at before
      simpa using before
    | false =>
      -- a path below a text is no segment of another path
      rw [place_of_not_below secondBelow] at before
      have segment := before.subset (List.mem_singleton_self first.1)
      exact absurd (split_of_mem marked segment) (split_ne_singleton marked firstBelow)
  | false =>
    rw [place_of_not_below firstBelow] at before
    cases secondBelow : isBelowText mark leaves second.1 with
    | true =>
      rw [place_of_below secondBelow] at before
      rcases List.prefix_cons_iff.mp before with empty | ⟨rest, same, inside⟩
      · exact absurd empty (split_ne_nil mark first.1)
      · obtain rfl : rest = [] := by simpa using inside
        rw [← join_split mark first.1, same, join, String.intercalate_singleton]
    | false =>
      rw [place_of_not_below secondBelow] at before
      by_cases same : split mark first.1 = split mark second.1
      · exact split_injective same
      · -- the first leaf is then an object, and one with a key below it
        have above : Above mark first.1 second.1 := ⟨before, same⟩
        refine absurd ⟨?_, ?_⟩ placed
        · by_contra isText
          rw [Bool.not_eq_true] at isText
          have below := (isBelowText_iff marked distinct).mpr ⟨first, firstMember, isText, above⟩
          simp [below] at secondBelow
        · exact (mem_coveredPaths_iff marked).mpr ⟨second.1, List.mem_map_of_mem secondMember, secondBelow, above⟩

theorem place_injective {first second : String}
    (same : place mark leaves first = place mark leaves second) : first = second := by
  cases firstBelow : isBelowText mark leaves first <;> cases secondBelow : isBelowText mark leaves second <;>
    simp only [place, firstBelow, secondBelow, ite_true, Bool.false_eq_true, ite_false] at same
  · exact split_injective same
  · rw [← join_split mark first, same, join, String.intercalate_singleton]
  · rw [← join_split mark second, ← same, join, String.intercalate_singleton]
  · simpa using same

def Holds (mark : String) (leaves placed : List (String × Leaf)) (entries : Tree.Entries Leaf) : Prop :=
  ∀ spot leaf, Tree.leafAt? spot (.branch entries) = some leaf ↔
    ∃ path, (path, leaf) ∈ placed ∧ Placed mark leaves (path, leaf) ∧ spot = place mark leaves path

theorem placeLeaf_of_placed {entry : String × Leaf} (placed : Placed mark leaves entry) (entries : Tree.Entries Leaf) :
    placeLeaf mark leaves entries entry =
      (Tree.insertAt? (fun _ => false) (.leaf entry.2) (place mark leaves entry.1) entries).getD
        (Table.put entry.1 (.leaf entry.2) entries) := by
  have notLeftOut : (entry.2.isOpaque && (coveredPaths mark leaves).contains entry.1) = false := by
    simpa [Placed] using placed
  rw [placeLeaf, notLeftOut]
  cases below : isBelowText mark leaves entry.1 with
  | false => rw [place_of_not_below below]; rfl
  | true => rw [place_of_below below]; rfl

theorem placeLeaf_of_not_placed {entry : String × Leaf} (leftOut : ¬ Placed mark leaves entry)
    (entries : Tree.Entries Leaf) : placeLeaf mark leaves entries entry = entries := by
  have isLeftOut : (entry.2.isOpaque && (coveredPaths mark leaves).contains entry.1) = true := by
    simpa [Placed] using leftOut
  rw [placeLeaf, isLeftOut]
  rfl

/-- One more leaf takes its place and leaves the others at theirs. -/
theorem placeLeaf_holds (marked : mark ≠ "") (distinct : (Table.names leaves).Nodup)
    {done : List (String × Leaf)} {entry : String × Leaf} (known : ∀ other ∈ done, other ∈ leaves)
    (member : entry ∈ leaves) (fresh : entry.1 ∉ Table.names done) {entries : Tree.Entries Leaf}
    (holds : Holds mark leaves done entries) :
    Holds mark leaves (done ++ [entry]) (placeLeaf mark leaves entries entry) := by
  by_cases placed : Placed mark leaves entry
  · have apart {other : String × Leaf} (inside : other ∈ done) : other.1 ≠ entry.1 :=
      fun same => fresh (same ▸ List.mem_map_of_mem inside)
    have free : (Tree.insertAt? (fun _ => false) (.leaf entry.2) (place mark leaves entry.1) entries).isSome := by
      apply insertAt?_isSome
      intro above leaf before different held
      obtain ⟨path, inside, otherPlaced, rfl⟩ := (holds above leaf).mp held
      have same := eq_of_place_above marked distinct (known _ inside) member otherPlaced before
      exact absurd same (apart inside)
    obtain ⟨after, entered⟩ := Option.isSome_iff_exists.mp free
    rw [placeLeaf_of_placed placed, entered, Option.getD_some]
    intro spot leaf
    rw [leafAt?_insertAt? entered (place_ne_nil entry.1) spot]
    constructor
    · intro held
      split at held
      next here =>
        obtain rfl := Option.some.inj held
        exact ⟨entry.1, List.mem_append_right _ (List.mem_singleton_self entry), placed, here⟩
      next =>
        split at held
        · cases held
        · obtain ⟨path, inside, otherPlaced, here⟩ := (holds spot leaf).mp held
          exact ⟨path, List.mem_append_left _ inside, otherPlaced, here⟩
    · rintro ⟨path, inside, otherPlaced, rfl⟩
      rcases List.mem_append.mp inside with old | new
      · have different : path ≠ entry.1 := apart old
        have elsewhere : place mark leaves path ≠ place mark leaves entry.1 :=
          fun same => different (place_injective same)
        have behind : ¬ place mark leaves entry.1 <+: place mark leaves path := fun before =>
          different (eq_of_place_above marked distinct member (known _ old) placed before).symm
        have inFront : ¬ place mark leaves path <+: place mark leaves entry.1 := fun before =>
          different (eq_of_place_above marked distinct (known _ old) member otherPlaced before)
        simpa [elsewhere, behind, inFront] using (holds _ leaf).mpr ⟨path, old, otherPlaced, rfl⟩
      · obtain rfl := List.mem_singleton.mp new
        simp
  · rw [placeLeaf_of_not_placed placed]
    intro spot leaf
    rw [holds spot leaf]
    constructor
    · rintro ⟨path, inside, otherPlaced, here⟩
      exact ⟨path, List.mem_append_left _ inside, otherPlaced, here⟩
    · rintro ⟨path, inside, otherPlaced, here⟩
      rcases List.mem_append.mp inside with old | new
      · exact ⟨path, old, otherPlaced, here⟩
      · exact absurd (List.mem_singleton.mp new ▸ otherPlaced) placed

theorem foldl_holds (marked : mark ≠ "") (distinct : (Table.names leaves).Nodup)
    (done : List (String × Leaf)) {todo : List (String × Leaf)} (whole : leaves = done ++ todo) {entries : Tree.Entries Leaf}
    (holds : Holds mark leaves done entries) :
    Holds mark leaves leaves (todo.foldl (placeLeaf mark leaves) entries) := by
  induction todo generalizing done entries with
  | nil =>
    rw [List.append_nil] at whole
    simpa [← whole] using holds
  | cons entry todo ih =>
    have apart : entry.1 ∉ Table.names done := by
      rw [whole, Table.names_append, List.nodup_append] at distinct
      exact fun inside => distinct.2.2 _ inside _ List.mem_cons_self rfl
    apply ih (done ++ [entry]) (by simp [whole])
    exact placeLeaf_holds marked distinct (by simp +contextual [whole]) (by simp [whole]) apart holds

/-- At the segments of a path below no text, or below them, there is a leaf that has a place of its own: the deepest one
below the path is left out for no other. -/
theorem exists_placed_from (marked : mark ≠ "") {path : String} (member : path ∈ Table.names leaves)
    (free : isBelowText mark leaves path = false) :
    ∃ entry ∈ leaves, Placed mark leaves entry ∧ isBelowText mark leaves entry.1 = false ∧
      split mark path <+: split mark entry.1 := by
  let inside : List String := (Table.names leaves).filter fun other =>
    !isBelowText mark leaves other && decide (split mark path <+: split mark other)
  have mem_inside {other : String} : other ∈ inside ↔
      other ∈ Table.names leaves ∧ isBelowText mark leaves other = false ∧ split mark path <+: split mark other := by
    simp [inside]
  cases found : inside.argmax fun other => (split mark other).length with
  | none =>
    have here : path ∈ inside := mem_inside.mpr ⟨member, free, List.prefix_rfl⟩
    rw [List.argmax_eq_none.mp found] at here
    cases here
  | some deepest =>
    obtain ⟨named, deepestFree, below⟩ := mem_inside.mp (List.argmax_mem found)
    obtain ⟨⟨_, leaf⟩, leafMember, rfl⟩ := List.mem_map.mp named
    refine ⟨_, leafMember, ?_, deepestFree, below⟩
    rintro ⟨_, covered⟩
    obtain ⟨deeper, deeperNamed, deeperFree, above, different⟩ := (mem_coveredPaths_iff marked).mp covered
    have notLonger := List.le_of_mem_argmax (mem_inside.mpr ⟨deeperNamed, deeperFree, below.trans above⟩) found
    exact different (above.eq_of_length_le notLonger)

/-- The tree of leaves holds every leaf but the objects with keys below them, each at its place, and nothing else. -/
theorem leafAt?_arrange (marked : mark ≠ "") (distinct : (Table.names leaves).Nodup) (spot : List String)
    (leaf : Leaf) :
    Tree.leafAt? spot (.branch (arrange mark leaves)) = some leaf ↔
      ∃ path, (path, leaf) ∈ leaves ∧ Placed mark leaves (path, leaf) ∧ spot = place mark leaves path := by
  apply foldl_holds marked distinct [] rfl
  intro spot leaf
  simp [leafAt?_empty]

/-- The tree has something at the segments of every path that lies below no text. -/
theorem at?_arrange_isSome (marked : mark ≠ "") (distinct : (Table.names leaves).Nodup) {path : String}
    (member : path ∈ Table.names leaves) (free : isBelowText mark leaves path = false) :
    (Tree.at? (split mark path) (.branch (arrange mark leaves))).isSome = true := by
  obtain ⟨entry, inside, placed, entryFree, below⟩ := exists_placed_from marked member free
  have held := (leafAt?_arrange marked distinct _ entry.2).mpr ⟨entry.1, inside, placed, rfl⟩
  rw [place_of_not_below entryFree, leafAt?_eq_some_iff] at held
  exact Tree.at?_isSome_of_prefix below (Option.isSome_of_mem held)

theorem full_arrange (mark : String) (leaves : List (String × Leaf)) : ∀ entry ∈ arrange mark leaves, entry.2.Full := by
  refine List.foldlRecOn (motive := fun entries : Tree.Entries Leaf => ∀ entry ∈ entries, entry.2.Full) _ _ (by simp) ?_
  intro entries full entry _
  by_cases placed : Placed mark leaves entry
  · rw [placeLeaf_of_placed placed]
    cases entered : Tree.insertAt? (fun _ => false) (.leaf entry.2) (place mark leaves entry.1) entries with
    | none => exact full_put full (.leaf entry.2) entry.1
    | some after => exact full_insertAt? full (.leaf entry.2) entered
  · rw [placeLeaf_of_not_placed placed]
    exact full

def placeIn (separator : Separator) (leaves : List (String × Leaf)) (path : String) : List String :=
  match separator.mark? with
  | none => [path]
  | some mark => place mark leaves path

/-- Whether a leaf has a place of its own; all have where nothing separates segments. -/
def PlacedIn (separator : Separator) (leaves : List (String × Leaf)) (entry : String × Leaf) : Prop :=
  ∀ mark, separator.mark? = some mark → Placed mark leaves entry

theorem mark_ne_empty {separator : Separator} (marked : separator.mark? = some mark) : mark ≠ "" := by
  simpa using (Option.filter_eq_some_iff.mp marked).2

/-- The tree of leaves holds those that have a place, each at its own, and nothing else. -/
theorem leafAt?_entriesOf (separator : Separator) (distinct : (Table.names leaves).Nodup) (spot : List String)
    (leaf : Leaf) :
    Tree.leafAt? spot (.branch (entriesOf separator leaves)) = some leaf ↔
      ∃ path, (path, leaf) ∈ leaves ∧ PlacedIn separator leaves (path, leaf) ∧
        spot = placeIn separator leaves path := by
  cases marked : separator.mark? with
  | some mark =>
    simpa [entriesOf, PlacedIn, placeIn, marked] using leafAt?_arrange (mark_ne_empty marked) distinct spot leaf
  | none =>
    simp only [entriesOf, PlacedIn, placeIn, marked, reduceCtorEq, false_implies, implies_true, true_and]
    cases spot with
    | nil => simp
    | cons name rest =>
      rw [leafAt?_cons_branch, Table.find?_map, Option.bind_map]
      change ((Table.find? name leaves).bind fun found => Tree.leafAt? rest (.leaf found)) = some leaf ↔ _
      by_cases here : rest = [] <;>
        simp [here, leafAt?_leaf, Table.find?_eq_some_iff distinct]

/-- The segments of a path; where nothing separates segments, it is one of its own. -/
def segmentsOf (separator : Separator) (path : String) : List String :=
  match separator.mark? with
  | none => [path]
  | some mark => split mark path

theorem at?_entriesOf_isSome (separator : Separator) (distinct : (Table.names leaves).Nodup) {path : String}
    (member : path ∈ Table.names leaves)
    (free : ∀ mark, separator.mark? = some mark → isBelowText mark leaves path = false) :
    (Tree.at? (segmentsOf separator path) (.branch (entriesOf separator leaves))).isSome = true := by
  cases marked : separator.mark? with
  | some mark =>
    simpa [segmentsOf, entriesOf, marked] using
      at?_arrange_isSome (mark_ne_empty marked) distinct member (free mark marked)
  | none =>
    obtain ⟨entry, inside, rfl⟩ := List.mem_map.mp member
    have found := (Table.find?_eq_some_iff distinct).mpr inside
    simp only [segmentsOf, entriesOf, marked, Tree.at?]
    rw [Table.find?_map, found]
    rfl

theorem full_entriesOf (separator : Separator) (leaves : List (String × Leaf)) :
    ∀ entry ∈ entriesOf separator leaves, entry.2.Full := by
  unfold entriesOf
  split
  · intro entry member
    obtain ⟨other, _, rfl⟩ := List.mem_map.mp member
    exact .leaf other.2
  · exact full_arrange _ leaves

end Phrasebook.Proofs.Placement
