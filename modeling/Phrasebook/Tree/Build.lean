import Phrasebook.Plural.Variant
import Phrasebook.Settings.Basic
import Phrasebook.Tree.Basic

/-! The tree of texts that the keys of a namespace ask for in a locale. -/

namespace Phrasebook

structure Leaf where
  key : String
  defaultValue : String
  /-- Whether the source gives the text. -/
  explicit : Bool := false
  isOpaque : Bool := false
deriving DecidableEq, Repr, Inhabited

/-- The tree for a namespace and a locale, and the keys that need care where it meets a catalog. -/
structure Built where
  namespaceName : String
  locale : String
  entries : Tree.Entries Leaf := []
  /-- A name stands for one thing at each level. -/
  distinct : (Tree.branch entries).Distinct := by exact Tree.Distinct.empty
  /-- The keys that stand for whole objects. -/
  opaquePaths : List String := []
  /-- The keys that depend on a count. -/
  pluralBases : List String := []
  /-- The keys that have contexts. -/
  contextBases : List String := []

instance : Inhabited Built := ⟨{ namespaceName := "", locale := "" }⟩

namespace Built

def leavesOf (settings : Settings) (locale : String) (key : Key) : List (String × Leaf) :=
  match key.plural with
  | none =>
    [(key.text,
      { key := key.text
        defaultValue := key.defaultValue.getD key.text
        explicit := key.explicitDefault
        isOpaque := key.isOpaque })]
  | some request =>
    (request.variants key.text locale settings.primaryLanguage settings.extraction.pluralSeparator).map
      fun variant =>
        (variant.key, { key := variant.key, defaultValue := variant.defaultValue, explicit := variant.explicit })

def joinLeaf (path : String) (known leaf : Leaf) : Leaf :=
  let isOpaque := known.isOpaque || leaf.isOpaque
  if leaf.explicit && !known.explicit then
    { key := path, defaultValue := leaf.defaultValue, explicit := true, isOpaque }
  else { known with isOpaque }

def addLeaf (leaves : List (String × Leaf)) (entry : String × Leaf) : List (String × Leaf) :=
  match Table.find? entry.1 leaves with
  | none => Table.put entry.1 entry.2 leaves
  | some known => Table.put entry.1 (joinLeaf entry.1 known entry.2) leaves

def leaves (settings : Settings) (locale : String) (keys : List Key) : List (String × Leaf) :=
  (keys.flatMap (leavesOf settings locale)).foldl addLeaf []

theorem nodup_names_addLeaf {leaves : List (String × Leaf)} (distinct : (Table.names leaves).Nodup)
    (entry : String × Leaf) : (Table.names (addLeaf leaves entry)).Nodup := by
  unfold addLeaf
  split <;> exact Table.nodup_names_put distinct _ _

theorem nodup_names_leaves (settings : Settings) (locale : String) (keys : List Key) :
    (Table.names (leaves settings locale keys)).Nodup := by
  unfold leaves
  refine List.foldlRecOn (motive := fun leaves => (Table.names leaves).Nodup) _ addLeaf List.nodup_nil ?_
  exact fun leaves distinct entry _ => nodup_names_addLeaf distinct entry

def pathsAbove (mark path : String) : List String :=
  let segments := Text.split mark path
  (List.range (segments.length - 1)).map fun count => Text.join mark (segments.take (count + 1))

def isBelowText (mark : String) (leaves : List (String × Leaf)) (path : String) : Bool :=
  (pathsAbove mark path).any fun above => (Table.find? above leaves).any fun leaf => !leaf.isOpaque

/-- The paths above those that lie below no text. -/
def coveredPaths (mark : String) (leaves : List (String × Leaf)) : List String :=
  ((Table.names leaves).filter fun path => !isBelowText mark leaves path).flatMap (pathsAbove mark)

/-- The tree with one more leaf. One whose path lies below a text stands on the root; an object with other keys
below it needs no leaf of its own. -/
def placeLeaf (mark : String) (leaves : List (String × Leaf)) (entries : Tree.Entries Leaf)
    (entry : String × Leaf) : Tree.Entries Leaf :=
  if entry.2.isOpaque && (coveredPaths mark leaves).contains entry.1 then entries
  else if isBelowText mark leaves entry.1 then Table.put entry.1 (.leaf entry.2) entries
  else Tree.insert (fun _ => false) (some mark) entry.1 (.leaf entry.2) entries

def arrange (mark : String) (leaves : List (String × Leaf)) : Tree.Entries Leaf :=
  leaves.foldl (placeLeaf mark leaves) []

/-- The tree of leaves, flat where nothing separates segments. -/
def entriesOf (separator : Separator) (leaves : List (String × Leaf)) : Tree.Entries Leaf :=
  match separator.mark? with
  | none => leaves.map fun (path, leaf) => (path, .leaf leaf)
  | some mark => arrange mark leaves

theorem distinct_arrange (mark : String) (leaves : List (String × Leaf)) :
    (Tree.branch (arrange mark leaves)).Distinct := by
  unfold arrange
  refine List.foldlRecOn (motive := fun entries => (Tree.branch entries).Distinct) _ _ Tree.Distinct.empty ?_
  intro entries distinct entry _
  unfold placeLeaf
  split
  · exact distinct
  · split
    · exact distinct.put entry.1 (.leaf entry.2)
    · exact distinct.insert (.leaf entry.2) _ _ _

theorem distinct_entriesOf (separator : Separator) {leaves : List (String × Leaf)}
    (distinct : (Table.names leaves).Nodup) : (Tree.branch (entriesOf separator leaves)).Distinct := by
  unfold entriesOf
  split
  · refine .branch (by simpa [Table.names, Function.comp_def] using distinct) ?_
    intro entry member
    obtain ⟨leaf, _, rfl⟩ := List.mem_map.mp member
    exact .leaf leaf.2
  · exact distinct_arrange _ leaves

def contextBasesOf (key : Key) : List String :=
  (if key.contextValues.isSome then [key.text] else []) ++ (key.contextOf.filter (· ≠ "")).toList

/-- The tree that keys ask for in a locale. Keys of other namespaces are passed over. -/
def ofKeys (settings : Settings) (keys : List Key) (namespaceName locale : String) : Built :=
  let keys := keys.filter fun key => key.namespaceName = namespaceName
  { namespaceName, locale
    entries := entriesOf settings.extraction.keySeparator (leaves settings locale keys)
    distinct := distinct_entriesOf _ (nodup_names_leaves settings locale keys)
    opaquePaths := Key.addNew [] ((keys.filter Key.isOpaque).map Key.text)
    pluralBases := Key.addNew [] ((keys.filter fun key => key.plural.isSome).map Key.text)
    contextBases := Key.addNew [] (keys.flatMap contextBasesOf) }

end Built

/-- The namespaces of keys in the order of their first keys, but for the ignored ones. -/
def namespacesIn (ignored : List String) (keys : List Key) : List String :=
  Key.addNew [] ((keys.map Key.namespaceName).filter fun name => !ignored.contains name)

/-- The keys of each namespace, in the order of the namespaces' first keys; ignored namespaces are left out. -/
def groupByNamespace (ignored : List String) (keys : List Key) : List (String × List Key) :=
  (namespacesIn ignored keys).map fun name => (name, keys.filter fun key => key.namespaceName = name)

theorem names_groupByNamespace (ignored : List String) (keys : List Key) :
    Table.names (groupByNamespace ignored keys) = namespacesIn ignored keys := by
  rw [groupByNamespace, Table.names, List.map_map]
  exact List.map_id _

/-- Each namespace has its keys once. -/
theorem nodup_names_groupByNamespace (ignored : List String) (keys : List Key) :
    (Table.names (groupByNamespace ignored keys)).Nodup := by
  rw [names_groupByNamespace]
  exact Key.nodup_addNew List.nodup_nil _

end Phrasebook
