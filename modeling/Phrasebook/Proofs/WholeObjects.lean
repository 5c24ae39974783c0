import Phrasebook.Proofs.JoinedLeaves
import Phrasebook.Proofs.MergedPlaces
import Phrasebook.Proofs.Placement

/-! Keys that stand for whole objects. The tree has something at the segments of such a key, a leaf of its own or a branch
with the keys below it, and so the merge comes there and takes the catalog's value over. -/

namespace Phrasebook.Proofs.WholeObjects

open Built Catalog JoinedLeaves MergedPlaces Placement Segments

theorem pathBelow_eq_join {policy : Policy} {mark : String} (marked : policy.keySeparator.mark? = some mark)
    {path : String} (some : path ≠ "") (place : List String) :
    policy.pathBelow path place = Text.join mark (path :: place) := by
  induction place generalizing path with
  | nil => exact String.intercalate_singleton.symm
  | cons name rest ih =>
    have joined : policy.join path name = path ++ mark ++ name := by simp [Policy.join, marked, some]
    have further : path ++ mark ++ name ≠ "" := by simp [some]
    rw [Policy.pathBelow, List.foldl_cons, ← Policy.pathBelow, joined, ih further, Text.join, Text.join,
      String.intercalate_cons_append, String.intercalate_cons_cons]

/-- The segments of a path lead back to it, but for an empty one in front, which leaves no trace. -/
theorem pathOf_segmentsOf {policy : Policy} {path : String}
    (named : (segmentsOf policy.keySeparator path).head? ≠ some "") :
    policy.pathOf (segmentsOf policy.keySeparator path) = path := by
  cases marked : policy.keySeparator.mark? with
  | none => simp [segmentsOf, marked, Policy.pathOf, Policy.pathBelow, Policy.join]
  | some mark =>
    simp only [segmentsOf, marked] at named ⊢
    obtain ⟨first, rest, parts⟩ := List.exists_cons_of_ne_nil (split_ne_nil mark path)
    have some : first ≠ "" := by simpa [parts] using named
    have start : policy.join "" first = first := by simp [Policy.join, marked]
    rw [parts, Policy.pathOf, Policy.pathBelow, List.foldl_cons, start, ← Policy.pathBelow, pathBelow_eq_join marked some,
      ← parts, join_split]

theorem segmentsOf_ne_nil (separator : Separator) (path : String) : segmentsOf separator path ≠ [] := by
  unfold segmentsOf
  split
  · exact List.cons_ne_nil _ _
  · exact split_ne_nil _ path

theorem mem_opaquePaths {settings : Settings} {keys : List Key} {namespaceName locale : String} {key : Key}
    (member : key ∈ keys) (here : key.namespaceName = namespaceName) (isOpaque : key.isOpaque = true) :
    key.text ∈ (ofKeys settings keys namespaceName locale).opaquePaths := by
  simp only [ofKeys, Key.mem_addNew, List.mem_map, List.mem_filter]
  exact Or.inr ⟨key, ⟨⟨member, by simpa using here⟩, isOpaque⟩, rfl⟩

theorem mem_names_leavesIn_of_single (settings : Settings) {keys : List Key} {namespaceName : String} (locale : String)
    {key : Key} (member : key ∈ keys) (here : key.namespaceName = namespaceName) (single : key.plural = none) :
    key.text ∈ Table.names (leavesIn settings namespaceName locale keys) := by
  rw [leavesIn, mem_names_leaves]
  exact ⟨key, List.mem_filter.mpr ⟨member, by simpa using here⟩, by simp [leavesOf, single]⟩

/-- What a catalog has at the segments of a key that stands for a whole object is found again as it was, whatever keys
there are below it, as long as no text is above it. -/
theorem at?_reconcile_opaque (settings : Settings) (keys : List Key) (namespaceName locale : String) (key : Key)
    (member : key ∈ keys) (here : key.namespaceName = namespaceName) (isOpaque : key.isOpaque = true)
    (single : key.plural = none)
    (named : (segmentsOf settings.extraction.keySeparator key.text).head? ≠ some "")
    (free : ∀ entry ∈ leavesIn settings namespaceName locale keys,
      segmentsOf settings.extraction.keySeparator entry.1 <+: segmentsOf settings.extraction.keySeparator key.text →
      entry.1 ≠ key.text → entry.2.isOpaque = true)
    (policy : Policy) (same : policy.keySeparator = settings.extraction.keySeparator) (isPrimary : Bool)
    (existing : Option Value) (value : Value)
    (held : existing.bind (Value.at? (segmentsOf settings.extraction.keySeparator key.text)) = some value) :
    (Value.object (reconcile (ofKeys settings keys namespaceName locale) existing locale isPrimary policy)).at?
      (segmentsOf settings.extraction.keySeparator key.text) = some value := by
  have below (mark : String) (marked : settings.extraction.keySeparator.mark? = some mark) :
      isBelowText mark (leavesIn settings namespaceName locale keys) key.text = false := by
    rw [← Bool.not_eq_true, isBelowText_iff (mark_ne_empty marked) nodup_names_leavesIn]
    rintro ⟨entry, inside, isText, before, different⟩
    have whole := free entry inside (by simpa [segmentsOf, marked] using before) fun same => different (same ▸ rfl)
    simp [isText] at whole
  have known := at?_entriesOf_isSome settings.extraction.keySeparator nodup_names_leavesIn
    (mem_names_leavesIn_of_single settings locale member here single) below
  have path_eq : policy.pathOf (segmentsOf settings.extraction.keySeparator key.text) = key.text := by
    rw [← same] at named ⊢
    exact pathOf_segmentsOf named
  have taken : TakenOver (ofKeys settings keys namespaceName locale) policy existing
      (segmentsOf settings.extraction.keySeparator key.text) :=
    ⟨by simp [held], Or.inr (by rw [path_eq]; exact mem_opaquePaths member here isOpaque)⟩
  have somewhere := segmentsOf_ne_nil settings.extraction.keySeparator key.text
  rw [← taken_iff _ existing locale isPrimary policy somewhere] at taken
  rw [object_reconcile, at?_merged_of_taken _ (ofKeys settings keys namespaceName locale).distinct somewhere known taken,
    at?_known somewhere, held]

def english : Settings := { locales := ["en"], extraction := { primaryLanguage := some "en" } }

def wholeMenu : Key := { text := "app.menu", namespaceName := "translation", isOpaque := true }

def menuTitle : Key :=
  { text := "app.menu.title", namespaceName := "translation", defaultValue := some "Menu", explicitDefault := true }

def menuValue : Value := .object [("title", .text "Old"), ("items", .list [.text "a", .text "b"])]

def menuCatalog : Value := .object [("app", .object [("menu", menuValue)])]

/-- An object is found again with its list though a key below it brings a text. -/
theorem menu_kept_with_key_below :
    (Value.object (reconcile (ofKeys english [menuTitle, wholeMenu] "translation" "en") (some menuCatalog) "en" true
      { syncPrimary := true })).at? ["app", "menu"] = some menuValue := by
  have parts : segmentsOf english.extraction.keySeparator wholeMenu.text = ["app", "menu"] := by decide +kernel
  have kept := at?_reconcile_opaque english [menuTitle, wholeMenu] "translation" "en" wholeMenu (by decide) rfl rfl rfl
    (by decide +kernel) (by decide +kernel) { syncPrimary := true } rfl true (some menuCatalog) menuValue
    (by rw [parts]; rfl)
  rwa [parts] at kept

end Phrasebook.Proofs.WholeObjects
