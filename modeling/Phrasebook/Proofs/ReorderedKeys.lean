import Phrasebook.Proofs.Survival
import Phrasebook.Proofs.SortedMerge

/-! Keys found in another order. They ask for the same leaves, so their trees have the same places; what the order can
change is only which of several deciding texts for one path comes first. -/

namespace Phrasebook.Proofs.ReorderedKeys

open Built Catalog JoinedLeaves LeafValues Placement SortedMerge Survival

section Shape

variable {leaves others : List (String × Leaf)}

/-- Leaves for the same paths, which stand for objects alike. -/
def SameShape (leaves others : List (String × Leaf)) : Prop :=
  ∀ path, (Table.find? path leaves).map Leaf.isOpaque = (Table.find? path others).map Leaf.isOpaque

theorem SameShape.symm (shape : SameShape leaves others) : SameShape others leaves := fun path => (shape path).symm

theorem SameShape.names (shape : SameShape leaves others) (path : String) :
    path ∈ Table.names leaves ↔ path ∈ Table.names others := by
  rw [← Table.has_iff, ← Table.has_iff, Table.has, Table.has, ← Option.isSome_map (f := Leaf.isOpaque), shape path,
    Option.isSome_map]

theorem SameShape.isBelowText (shape : SameShape leaves others) (mark path : String) :
    isBelowText mark leaves path = isBelowText mark others path := by
  have isText (entries : List (String × Leaf)) (above : String) :
      (Table.find? above entries).any (fun leaf => !leaf.isOpaque) =
        ((Table.find? above entries).map Leaf.isOpaque).any (!·) := by
    cases Table.find? above entries <;> rfl
  simp only [Built.isBelowText, isText, shape _]

theorem SameShape.place (shape : SameShape leaves others) (mark path : String) :
    place mark leaves path = place mark others path := by
  rw [Placement.place, Placement.place, shape.isBelowText]

theorem SameShape.placeIn (shape : SameShape leaves others) (separator : Separator) (path : String) :
    placeIn separator leaves path = placeIn separator others path := by
  simp only [Placement.placeIn, shape.place]

theorem SameShape.placedIn (shape : SameShape leaves others) {separator : Separator} {path : String}
    {leaf other : Leaf} (alike : leaf.isOpaque = other.isOpaque) (placed : PlacedIn separator leaves (path, leaf)) :
    PlacedIn separator others (path, other) := by
  intro mark marked leftOut
  refine placed mark marked ⟨alike.trans leftOut.1, ?_⟩
  obtain ⟨below, member, free, above⟩ := (mem_coveredPaths_iff (mark_ne_empty marked)).mp leftOut.2
  exact (mem_coveredPaths_iff (mark_ne_empty marked)).mpr
    ⟨below, (shape.names below).mpr member, (shape.isBelowText mark below).trans free, above⟩

end Shape

section Joined

variable {path : String} {first second : List Leaf}

theorem joined?_isOpaque (path : String) (leaves : List Leaf) :
    (joined? path leaves).map Leaf.isOpaque = if leaves.isEmpty then none else some (leaves.any Leaf.isOpaque) := by
  cases leaves with
  | nil => rfl
  | cons leaf rest =>
    obtain ⟨leader, behind, decided⟩ := List.exists_cons_of_ne_nil (deciding_ne_nil (List.cons_ne_nil leaf rest))
    simp [joined?, decided]

theorem joined?_isOpaque_of_perm (same : first.Perm second) :
    (joined? path first).map Leaf.isOpaque = (joined? path second).map Leaf.isOpaque := by
  rw [joined?_isOpaque, joined?_isOpaque, same.any_eq, same.isEmpty_eq]

/-- Leaves in another order are joined to the same leaf, if the deciding text is the same. -/
theorem joined?_eq_of_perm (same : first.Perm second)
    (text : (joined? path first).map Leaf.defaultValue = (joined? path second).map Leaf.defaultValue) :
    joined? path first = joined? path second := by
  cases leader : (deciding first).head? <;> cases other : (deciding second).head? <;>
    simp_all [joined?, same.any_eq]

theorem deciding_perm (same : first.Perm second) : (deciding first).Perm (deciding second) := by
  unfold deciding
  rw [same.any_eq]
  split
  · exact same.filter _
  · exact same

end Joined

section Trees

variable {settings : Settings} {namespaceName locale : String} {keys others : List Key}

/-- The leaves that keys of a namespace ask for under a path. -/
def askedIn (settings : Settings) (namespaceName locale : String) (keys : List Key) (path : String) : List Leaf :=
  asked path ((keys.filter fun key => key.namespaceName = namespaceName).flatMap (leavesOf settings locale))

/-- The text that keys settle on for a path: that of the first deciding leaf. -/
def settledText? (settings : Settings) (namespaceName locale : String) (keys : List Key) (path : String) :
    Option String :=
  (deciding (askedIn settings namespaceName locale keys path)).head?.map Leaf.defaultValue

/-- Whether keys settle on the same texts for all paths that have places in their tree. -/
def SameTexts (settings : Settings) (namespaceName locale : String) (keys others : List Key) : Prop :=
  ∀ path place, HasPlace (ofKeys settings keys namespaceName locale) path place →
    settledText? settings namespaceName locale keys path = settledText? settings namespaceName locale others path

theorem find?_leavesIn (path : String) :
    Table.find? path (leavesIn settings namespaceName locale keys) =
      joined? path (askedIn settings namespaceName locale keys path) := find?_leaves settings locale _ path

theorem settledText?_eq (path : String) :
    settledText? settings namespaceName locale keys path =
      (Table.find? path (leavesIn settings namespaceName locale keys)).map Leaf.defaultValue := by
  simp [settledText?, find?_leavesIn, joined?, Function.comp_def]

theorem askedIn_perm (same : keys.Perm others) (path : String) :
    (askedIn settings namespaceName locale keys path).Perm (askedIn settings namespaceName locale others path) :=
  (((same.filter _).flatMap_right _).filter _).map _

theorem sameShape_of_perm (same : keys.Perm others) :
    SameShape (leavesIn settings namespaceName locale keys) (leavesIn settings namespaceName locale others) := by
  intro path
  rw [find?_leavesIn, find?_leavesIn]
  exact joined?_isOpaque_of_perm (askedIn_perm same path)

theorem find?_leavesIn_of_perm (same : keys.Perm others) {path : String}
    (text : settledText? settings namespaceName locale keys path =
      settledText? settings namespaceName locale others path) :
    Table.find? path (leavesIn settings namespaceName locale keys) =
      Table.find? path (leavesIn settings namespaceName locale others) := by
  rw [settledText?_eq, settledText?_eq] at text
  rw [find?_leavesIn, find?_leavesIn] at text ⊢
  exact joined?_eq_of_perm (askedIn_perm same path) text

theorem leafAt?_ofKeys (place : List String) (leaf : Leaf) :
    Tree.leafAt? place (.branch (ofKeys settings keys namespaceName locale).entries) = some leaf ↔
      ∃ path, Table.find? path (leavesIn settings namespaceName locale keys) = some leaf ∧
        PlacedIn settings.extraction.keySeparator (leavesIn settings namespaceName locale keys) (path, leaf) ∧
        place = placeIn settings.extraction.keySeparator (leavesIn settings namespaceName locale keys) path := by
  simp only [Table.find?_eq_some_iff nodup_names_leavesIn]
  exact leafAt?_entriesOf settings.extraction.keySeparator nodup_names_leavesIn place leaf

theorem hasPlace_of_find? {path : String} {leaf : Leaf}
    (found : Table.find? path (leavesIn settings namespaceName locale keys) = some leaf)
    (placed : PlacedIn settings.extraction.keySeparator (leavesIn settings namespaceName locale keys) (path, leaf)) :
    HasPlace (ofKeys settings keys namespaceName locale) path
      (placeIn settings.extraction.keySeparator (leavesIn settings namespaceName locale keys) path) :=
  ⟨leaf, (leafAt?_ofKeys _ leaf).mpr ⟨path, found, placed, rfl⟩, key_of_mem_leaves (Table.mem_of_find? found)⟩

/-- Keys in another order make a tree with the same leaves at the same places, if they settle on the same texts. -/
theorem leafAt?_of_perm (same : keys.Perm others) (texts : SameTexts settings namespaceName locale keys others)
    (place : List String) :
    Tree.leafAt? place (.branch (ofKeys settings keys namespaceName locale).entries) =
      Tree.leafAt? place (.branch (ofKeys settings others namespaceName locale).entries) := by
  have shape : SameShape (leavesIn settings namespaceName locale keys) (leavesIn settings namespaceName locale others) :=
    sameShape_of_perm same
  apply Option.ext
  intro leaf
  rw [leafAt?_ofKeys, leafAt?_ofKeys]
  constructor
  · rintro ⟨path, found, placed, rfl⟩
    have there := find?_leavesIn_of_perm same (texts path _ (hasPlace_of_find? found placed))
    exact ⟨path, there.symm.trans found, shape.placedIn rfl placed, shape.placeIn _ path⟩
  · -- texts are compared at the places of the first keys, so the twin of the leaf has to be found there
    rintro ⟨path, found, placed, rfl⟩
    have alike := shape path
    rw [found] at alike
    obtain ⟨twin, twinFound, twinAlike⟩ := Option.map_eq_some_iff.mp alike
    have twinPlaced := shape.symm.placedIn twinAlike.symm placed
    have there := find?_leavesIn_of_perm same (texts path _ (hasPlace_of_find? twinFound twinPlaced))
    exact ⟨path, there.trans found, shape.symm.placedIn rfl placed, shape.symm.placeIn _ path⟩

theorem alike_of_perm (same : keys.Perm others) (isPrimary : Bool) (policy : Policy) :
    Alike ⟨ofKeys settings keys namespaceName locale, locale, isPrimary, policy⟩
      ⟨ofKeys settings others namespaceName locale, locale, isPrimary, policy⟩ where
  policy := rfl
  locale := rfl
  isPrimary := rfl
  namespaceName := rfl
  opaquePaths path := by simp only [ofKeys, Key.mem_addNew, ((same.filter _).filter _).map _ |>.mem_iff]
  pluralBases path := by simp only [ofKeys, Key.mem_addNew, ((same.filter _).filter _).map _ |>.mem_iff]
  contextBases path := by simp only [ofKeys, Key.mem_addNew, (same.filter _).flatMap_right _ |>.mem_iff]

/-- A catalog becomes the same for keys in another order, if these settle on the same texts. -/
theorem content_of_perm (same : keys.Perm others) (texts : SameTexts settings namespaceName locale keys others)
    (isPrimary : Bool) {policy : Policy} (sorted : policy.order = .ascending) (existing : Entries) :
    Merge.content ⟨ofKeys settings keys namespaceName locale, locale, isPrimary, policy⟩ existing =
      Merge.content ⟨ofKeys settings others namespaceName locale, locale, isPrimary, policy⟩ existing :=
  content_eq_of_leafAt? (alike_of_perm same isPrimary policy) sorted (full_entriesOf _ _) (full_entriesOf _ _)
    (leafAt?_of_perm same texts) existing

/-- Keys whose deciding leaves for a path all have one text settle on it in any order. -/
theorem sameTexts_of_agreed (same : keys.Perm others)
    (agreed : ∀ path, ∀ leaf ∈ deciding (askedIn settings namespaceName locale keys path),
      ∀ twin ∈ deciding (askedIn settings namespaceName locale keys path), leaf.defaultValue = twin.defaultValue) :
    SameTexts settings namespaceName locale keys others := by
  intro path _ _
  have alike : (deciding (askedIn settings namespaceName locale keys path)).Perm
      (deciding (askedIn settings namespaceName locale others path)) := deciding_perm (askedIn_perm same path)
  have leaders := agreed path
  unfold settledText?
  generalize deciding (askedIn settings namespaceName locale keys path) = first at alike leaders
  generalize deciding (askedIn settings namespaceName locale others path) = second at alike
  cases first with
  | nil => rw [alike.nil_eq]
  | cons leaf rest =>
    cases second with
    | nil => exact absurd alike.eq_nil (List.cons_ne_nil leaf rest)
    | cons twin others => exact congrArg some (leaders leaf List.mem_cons_self twin (alike.mem_iff.mpr List.mem_cons_self))

theorem at?_content_primary {built : Built} (locale : String) (policy : Policy) {place : List String} {leaf : Leaf}
    (found : Tree.leafAt? place (.branch built.entries) = some leaf) :
    (Value.object (Merge.content ⟨built, locale, true, policy⟩ [])).at? place = some (.text leaf.defaultValue) := by
  rcases at?_content ⟨built, locale, true, policy⟩ found [] with ⟨whole, made⟩ | ⟨some, _⟩
  · cases place with
    | nil => cases found
    | cons name rest =>
      have nothing : (Value.object []).at? (name :: rest) = none := rfl
      rw [made, nothing]
      rfl
  · exact absurd rfl some

/-- Without a catalog the primary locale shows which texts the keys settle on. -/
theorem sameTexts_of_content (same : keys.Perm others) {policy : Policy}
    (alike : Merge.content ⟨ofKeys settings keys namespaceName locale, locale, true, policy⟩ [] =
      Merge.content ⟨ofKeys settings others namespaceName locale, locale, true, policy⟩ []) :
    SameTexts settings namespaceName locale keys others := by
  rintro path place ⟨leaf, held, named⟩
  have shape : SameShape (leavesIn settings namespaceName locale keys) (leavesIn settings namespaceName locale others) :=
    sameShape_of_perm same
  obtain ⟨known, found, placed, here⟩ := (leafAt?_ofKeys place leaf).mp held
  obtain rfl : known = path := (key_of_mem_leaves (Table.mem_of_find? found)).symm.trans named
  have both := shape known
  rw [found] at both
  obtain ⟨twin, twinFound, twinAlike⟩ := Option.map_eq_some_iff.mp both.symm
  have twinHeld := (leafAt?_ofKeys place twin).mpr
    ⟨known, twinFound, shape.placedIn twinAlike.symm placed, here.trans (shape.placeIn _ known)⟩
  have first := at?_content_primary locale policy held
  have second := at?_content_primary locale policy twinHeld
  rw [alike, second, Option.some.injEq, Value.text.injEq] at first
  rw [settledText?_eq, settledText?_eq, found, twinFound, Option.map_some, Option.map_some, first]

end Trees

end Phrasebook.Proofs.ReorderedKeys
