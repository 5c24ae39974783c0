import Phrasebook.Pattern.Star
import Phrasebook.Tree.Build
import Phrasebook.Tree.Default
import Phrasebook.Tree.Order

/-! Bringing a catalog in line with a tree of texts. For every path the first of these decides: it is to be kept
as it is, it stands for a whole object, the tree asks for a text there, or only the catalog knows it. Where tree
and catalog differ about whether a path is a text or an object, the tree is right. -/

namespace Phrasebook

open Catalog

/-- What decides about a merge besides the tree and the catalog. -/
structure Policy where
  keySeparator : Separator := some "."
  namespaceSeparator : Separator := some ":"
  contextSeparator : String := "_"
  pluralSeparator : String := "_"
  /-- Which paths the patterns of kept keys cover, pattern by pattern. -/
  preservePatterns : List (String → Bool) := []
  removeUnused : Bool := true
  preserveContextVariants : Bool := false
  order : Order := .ascending
  defaultSource : DefaultSource := .text ""
  /-- Whether texts from the source replace those of the primary locale. -/
  syncPrimary : Bool := false
  /-- Whether defaults replace the texts of all other locales. -/
  syncAll : Bool := false
deriving Inhabited

/-- What a run is asked to replace although there are texts. -/
structure Sync where
  primary : Bool := false
  all : Bool := false
deriving DecidableEq, Repr, Inhabited

namespace Policy

def ofExtraction (extraction : Extraction) (sync : Sync) : Policy where
  keySeparator := extraction.keySeparator
  namespaceSeparator := extraction.namespaceSeparator
  contextSeparator := extraction.contextSeparator
  pluralSeparator := extraction.pluralSeparator
  preservePatterns := extraction.preservePatterns.map Pattern.covers
  removeUnused := extraction.removeUnused
  preserveContextVariants := extraction.preserveContextVariants
  order := extraction.order
  defaultSource := extraction.defaultSource
  syncPrimary := sync.primary
  syncAll := sync.all

def join (policy : Policy) (path segment : String) : String :=
  match policy.keySeparator.mark? with
  | some mark => if path = "" then segment else path ++ mark ++ segment
  | none => segment

/-- Whether a path is to be kept as it is, alone or with its namespace in front. -/
def preserves (policy : Policy) (namespaceName path : String) : Bool :=
  let covered (path : String) : Bool := policy.preservePatterns.any fun covers => covers path
  covered path ||
    match policy.namespaceSeparator.mark? with
    | some mark => covered (namespaceName ++ mark ++ path)
    | none => false

end Policy

structure Merge where
  built : Built
  locale : String
  isPrimary : Bool
  policy : Policy
deriving Inhabited

namespace Merge

/-- Whether a path is to be kept as it is. -/
def preserves (merge : Merge) (path : String) : Bool := merge.policy.preserves merge.built.namespaceName path

/-- Whether a value at a path is taken over whatever the tree asks for there. -/
def copies (merge : Merge) (path : String) : Bool := merge.preserves path || merge.built.opaquePaths.contains path

/-- What is asked for where a text has to be made up. -/
def request (merge : Merge) (path : String) (leaf : Leaf) : DefaultRequest where
  key := path
  namespaceName := merge.built.namespaceName
  locale := merge.locale
  value := if leaf.defaultValue = "" then path else leaf.defaultValue

/-- Whether a text that the catalog has stays although the tree has one, too. -/
def keepsText (merge : Merge) (leaf : Leaf) : Bool :=
  if merge.isPrimary then !(merge.policy.syncPrimary && leaf.explicit) else !merge.policy.syncAll

def textAt? (existing : Option Value) : Option Value := existing.filter fun value => !value.isObject

@[simp] theorem textAt?_none : textAt? none = none := rfl

theorem textAt?_some (value : Value) : textAt? (some value) = if value.isObject then none else some value := by
  cases kind : value.isObject <;> simp [textAt?, Option.filter, kind]

/-- The value for a leaf whose place has no text to keep. -/
def newValue (merge : Merge) (path : String) (leaf : Leaf) : Value :=
  if merge.isPrimary then .text leaf.defaultValue
  else merge.policy.defaultSource.value (merge.request path leaf)

def leafValue (merge : Merge) (path : String) (leaf : Leaf) (existing : Option Value) : Value :=
  ((textAt? existing).filter fun _ => merge.keepsText leaf).getD (merge.newValue path leaf)

theorem leafValue_eq_newValue {merge : Merge} {leaf : Leaf} (replaces : merge.keepsText leaf = false)
    (path : String) (existing : Option Value) : merge.leafValue path leaf existing = merge.newValue path leaf := by
  cases found : textAt? existing <;> simp [leafValue, found, replaces, Option.filter]

theorem leafValue_eq_getD {merge : Merge} {leaf : Leaf} (keeps : merge.keepsText leaf = true)
    (path : String) (existing : Option Value) :
    merge.leafValue path leaf existing = (textAt? existing).getD (merge.newValue path leaf) := by
  cases found : textAt? existing <;> simp [leafValue, found, keeps, Option.filter]

/-- Whether a text that only the catalog knows stays: a form of a key that depends on a count, or of one that has
contexts where those are kept. -/
def keepsUnused (merge : Merge) (path : String) : Bool :=
  ((variantOf? merge.policy.pluralSeparator path).any fun variant =>
    merge.built.pluralBases.contains variant.1) ||
  (merge.policy.preserveContextVariants &&
    merge.built.contextBases.any fun base => Text.startsWith (base ++ merge.policy.contextSeparator) path)

mutual

/-- What stays of a value that only the catalog knows. -/
def unused? (merge : Merge) (path : String) : Value → Option Value
  | .object entries =>
    if merge.preserves path || !merge.policy.removeUnused then some (.object entries)
    else
      match unusedEntries merge path entries with
      | [] => none
      | kept => some (.object kept)
  | value =>
    if merge.preserves path || !merge.policy.removeUnused || merge.keepsUnused path then some value else none

def unusedEntries (merge : Merge) (path : String) : List (String × Value) → List (String × Value)
  | [] => []
  | (segment, value) :: rest =>
    match unused? merge (merge.policy.join path segment) value with
    | some kept => (segment, kept) :: unusedEntries merge path rest
    | none => unusedEntries merge path rest

end

def arrange (merge : Merge) (path : String) (entries : Entries) : Entries :=
  merge.policy.order.arrange merge.built.namespaceName (merge.policy.join path) entries

def unknown (entries : Tree.Entries Leaf) (existing : Entries) : Entries :=
  existing.filter fun (segment, _) => !Table.has segment entries

mutual

def treeValue (merge : Merge) (path : String) (existing : Option Value) : Tree Leaf → Value
  | .leaf leaf =>
    match existing.filter fun _ => merge.copies path with
    | some value => value
    | none => merge.leafValue path leaf existing
  | .branch entries =>
    match existing.filter fun _ => merge.copies path with
    | some value => value
    | none =>
      let known := (existing.map Value.entries).getD []
      .object (merge.arrange path
        (treeEntries merge path known entries ++ merge.unusedEntries path (unknown entries known)))

def treeEntries (merge : Merge) (path : String) (existing : Entries) :
    List (String × Tree Leaf) → List (String × Value)
  | [] => []
  | (segment, tree) :: rest =>
    (segment, treeValue merge (merge.policy.join path segment) (Table.find? segment existing) tree) ::
      treeEntries merge path existing rest

end

mutual

def treeMessages (merge : Merge) (path : String) (existing : Option Value) : Tree Leaf → List Message
  | .leaf leaf =>
    let isMadeUp := !merge.isPrimary && !((textAt? existing).isSome && merge.keepsText leaf)
    if existing.isSome && merge.copies path || !isMadeUp then []
    else (merge.policy.defaultSource.message? (merge.request path leaf)).toList
  | .branch entries =>
    if existing.isSome && merge.copies path then []
    else entryMessages merge path ((existing.map Value.entries).getD []) entries

def entryMessages (merge : Merge) (path : String) (existing : Entries) : List (String × Tree Leaf) → List Message
  | [] => []
  | (segment, tree) :: rest =>
    treeMessages merge (merge.policy.join path segment) (Table.find? segment existing) tree ++
      entryMessages merge path existing rest

end

def content (merge : Merge) (existing : Entries) : Entries :=
  merge.arrange "" (merge.treeEntries "" existing merge.built.entries ++
    merge.unusedEntries "" (unknown merge.built.entries existing))

def messages (merge : Merge) (existing : Entries) : List Message :=
  merge.entryMessages "" existing merge.built.entries

end Merge

/-- The content of a catalog brought in line with a tree. A catalog that is no object counts as empty. -/
def reconcile (built : Built) (existing : Option Value) (locale : String) (isPrimary : Bool) (policy : Policy) :
    Entries :=
  Merge.content ⟨built, locale, isPrimary, policy⟩ ((existing.map Value.entries).getD [])

end Phrasebook
