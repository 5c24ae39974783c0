import Phrasebook.Proofs.KeyNames

/-! What any number of sightings of one key come to, in closed form. One sighting is decisive, the last explicit one or
the first of all: the default and the request for plurals are its own, completed by the sightings behind it. All else is
gathered from all sightings alike. -/

namespace Phrasebook

/-- A list and behind it what later ones bring that is new, each once, in the order in which it was first seen. -/
def firstSeen (known later : List String) : List String := known ++ (later.removeAll known).eraseDups

/-- A request for plurals without the texts for single categories. -/
def PluralRequest.withoutForms (request : PluralRequest) : PluralRequest := { request with forms := [] }

namespace Key

def form? (category : String) (key : Key) : Option String :=
  key.plural.bind fun request => Table.find? category request.forms

/-- The categories for which a key comes with a text. -/
def categories (key : Key) : List String := (key.plural.map PluralRequest.forms).elim [] Table.names

/-- What a decisive sighting and those behind it make of a default and of a request for plurals. -/
structure SettledBy (decisive : Key) (behind : List Key) (key : Key) : Prop where
  defaultValue : key.defaultValue = (decisive :: behind).findSome? Key.defaultValue
  plural : key.plural.map PluralRequest.withoutForms = decisive.plural.map PluralRequest.withoutForms
  forms : ∀ category, key.form? category = (decisive :: behind).findSome? (form? category)
  categories : key.categories = firstSeen decisive.categories (behind.flatMap Key.categories)

/-- What a first sighting and later ones of the same key come to. -/
structure MergedFrom (first : Key) (later : List Key) (key : Key) : Prop where
  name : key.name = first.name
  explicitDefault : key.explicitDefault = (first :: later).any Key.explicitDefault
  /-- The decisive sighting is the last explicit one, and the first one where none is explicit. -/
  settled : ∃ before decisive behind, first :: later = before ++ decisive :: behind ∧
    (decisive.explicitDefault = true ∨ before = []) ∧ (∀ other ∈ behind, other.explicitDefault = false) ∧
    decisive.SettledBy behind key
  contextValues : key.contextValues =
    if (first :: later).all (·.contextValues.isNone) then none
    else some (firstSeen (first.contextValues.getD []) (later.flatMap (·.contextValues.getD [])))
  contextOf : key.contextOf = (first :: later).findSome? Key.contextOf
  isOpaque : key.isOpaque = (first :: later).any Key.isOpaque
  locations : key.locations = (first :: later).flatMap Key.locations

end Key

namespace Proofs.MergedSightings

open FirstSightings Key KeyNames

section Tables

theorem addNew_eq (known later : List String) : addNew known later = firstSeen known later := by
  induction later generalizing known with
  | nil => simp [addNew, firstSeen, List.removeAll]
  | cons value later ih =>
    rw [addNew, List.foldl_cons, ← addNew, ih]
    by_cases member : value ∈ known
    · simp [firstSeen, List.removeAll, member]
    · have here : (value :: later).removeAll known = value :: later.removeAll known := by
        simp [List.removeAll, member]
      have behind : later.removeAll (known ++ [value]) = (later.removeAll known).filter fun other => !other == value := by
        rw [List.removeAll, List.removeAll, List.filter_filter]
        refine List.filter_congr fun other _ => ?_
        by_cases same : other = value <;> simp [same]
      rw [if_neg (mt List.contains_iff_mem.mp member), firstSeen, firstSeen, here, behind, List.eraseDups_cons,
        List.append_assoc, List.singleton_append]

theorem firstSeen_nil (known : List String) : firstSeen known [] = known := (addNew_eq known []).symm

theorem firstSeen_firstSeen (known later last : List String) :
    firstSeen (firstSeen known later) last = firstSeen known (later ++ last) := by
  simp only [← addNew_eq, addNew, List.foldl_append]

theorem completeForms_cons (forms later : List (String × String)) (category text : String) :
    completeForms forms ((category, text) :: later) =
      completeForms (if Table.has category forms then forms else Table.put category text forms) later := rfl

/-- Of an earlier and a later form the earlier one stays. -/
theorem find?_completeForms (category : String) (forms later : List (String × String)) :
    Table.find? category (completeForms forms later) = (Table.find? category forms).or (Table.find? category later) := by
  induction later generalizing forms with
  | nil => exact (Option.or_none).symm
  | cons entry later ih =>
    obtain ⟨other, text⟩ := entry
    rw [completeForms_cons, ih, Table.find?]
    by_cases known : Table.has other forms = true
    · rw [if_pos known]
      by_cases same : other = category
      · obtain ⟨old, found⟩ := Option.isSome_iff_exists.mp known
        subst same
        simp [found]
      · rw [if_neg same]
    · rw [if_neg known]
      by_cases same : other = category
      · have absent : Table.find? other forms = none := by simpa [Table.has] using known
        subst same
        simp [absent]
      · rw [if_neg same, Table.find?_put_other (Ne.symm same)]

theorem names_completeForms (forms later : List (String × String)) :
    Table.names (completeForms forms later) = firstSeen (Table.names forms) (Table.names later) := by
  rw [← addNew_eq]
  induction later generalizing forms with
  | nil => rfl
  | cons entry later ih =>
    obtain ⟨category, text⟩ := entry
    rw [completeForms_cons, ih, Table.names_cons, addNew, addNew, List.foldl_cons]
    congr 1
    by_cases known : category ∈ Table.names forms
    · rw [if_pos (Table.has_iff.mpr known), if_pos (List.contains_iff_mem.mpr known)]
    · rw [if_neg (mt Table.has_iff.mp known), if_neg (mt List.contains_iff_mem.mp known), Table.names_put, if_neg known]

end Tables

section Steps

variable {first decisive key other : Key} {later behind : List Key}

/-- Sightings of one key all have a request for plurals or none has one. -/
theorem plural_eq_none_iff (same : other.name = key.name) : other.plural = none ↔ key.plural = none := by
  have kinds : other.plural.map PluralRequest.ordinal = key.plural.map PluralRequest.ordinal :=
    congrArg KeyName.ordinal same
  rw [← Option.map_eq_none_iff, kinds, Option.map_eq_none_iff]

theorem settledBy_self (key : Key) : key.SettledBy [] key where
  defaultValue := by simp
  plural := rfl
  forms := fun category => by simp
  categories := (firstSeen_nil _).symm

/-- An explicit sighting settles everything anew. -/
theorem settledBy_of_explicit (explicit : other.explicitDefault = true) (same : other.name = key.name) :
    other.SettledBy [] (key.merge other) := by
  have own : (key.merge other).plural = other.plural := by
    cases asked : other.plural with
    | none => simp [Key.merge, explicit, asked, (plural_eq_none_iff same).mp asked]
    | some request => simp [Key.merge, explicit, asked]
  have alone := settledBy_self other
  refine ⟨?_, ?_, fun category => ?_, ?_⟩
  · simp [Key.merge, explicit]
  · rw [own]
  · rw [form?, own]
    exact alone.forms category
  · rw [categories, own]
    exact alone.categories

/-- A sighting that is not explicit fills what is missing. -/
theorem settledBy_merge (settled : decisive.SettledBy behind key) (plain : other.explicitDefault = false)
    (same : other.name = key.name) : decisive.SettledBy (behind ++ [other]) (key.merge other) := by
  have default : (key.merge other).defaultValue = key.defaultValue.or other.defaultValue := by
    simp [Key.merge, plain]
  have plural : (key.merge other).plural.map PluralRequest.withoutForms = key.plural.map PluralRequest.withoutForms ∧
      (∀ category, (key.merge other).form? category = (key.form? category).or (other.form? category)) ∧
      (key.merge other).categories = firstSeen key.categories other.categories := by
    cases asked : key.plural with
    | none =>
      have unasked := (plural_eq_none_iff same).mpr asked
      simp [Key.merge, form?, categories, plain, asked, unasked, firstSeen_nil]
    | some request =>
      cases also : other.plural with
      | none => exact absurd ((plural_eq_none_iff same).mp also) (by simp [asked])
      | some late =>
        simp [Key.merge, form?, categories, plain, asked, also, PluralRequest.withoutForms, find?_completeForms,
          names_completeForms]
  obtain ⟨request, forms, names⟩ := plural
  refine ⟨?_, request.trans settled.plural, fun category => ?_, ?_⟩
  · rw [default, settled.defaultValue, ← List.cons_append, List.findSome?_append]
    simp
  · rw [forms, settled.forms, ← List.cons_append, List.findSome?_append]
    simp
  · rw [names, settled.categories, firstSeen_firstSeen, List.flatMap_append]
    simp

theorem mergedFrom_first (key : Key) : key.MergedFrom [] key where
  name := rfl
  explicitDefault := by simp
  settled := ⟨[], key, [], rfl, .inr rfl, List.forall_mem_nil _, settledBy_self key⟩
  contextValues := by cases values : key.contextValues <;> simp [values, firstSeen_nil]
  contextOf := by simp
  isOpaque := by simp
  locations := by simp

/-- Where no sighting came with contexts, none are known. -/
theorem contexts_of_mergedFrom (merged : first.MergedFrom later key) :
    key.contextValues.getD [] =
      firstSeen (first.contextValues.getD []) (later.flatMap (·.contextValues.getD [])) := by
  rw [merged.contextValues]
  split
  next none =>
    simp only [List.all_cons, Bool.and_eq_true, Option.isNone_iff_eq_none, List.all_eq_true] at none
    have nothing : later.flatMap (fun other => other.contextValues.getD []) = [] :=
      List.flatMap_eq_nil_iff.mpr fun other member => by simp [none.2 other member]
    rw [none.1, nothing]
    rfl
  next => rfl

/-- One more sighting makes of what was merged before what all of them come to. -/
theorem mergedFrom_merge (merged : first.MergedFrom later key) (same : other.name = first.name) :
    first.MergedFrom (later ++ [other]) (key.merge other) where
  name := (name_merge (same.trans merged.name.symm)).trans merged.name
  explicitDefault := by simp [Key.merge, merged.explicitDefault, Bool.or_comm, Bool.or_left_comm]
  settled := by
    obtain ⟨before, decisive, behind, split, decides, plain, settled⟩ := merged.settled
    have alike : other.name = key.name := same.trans merged.name.symm
    cases explicit : other.explicitDefault with
    | true =>
      refine ⟨first :: later, other, [], rfl, .inl explicit, List.forall_mem_nil _, ?_⟩
      exact settledBy_of_explicit explicit alike
    | false =>
      refine ⟨before, decisive, behind ++ [other], ?_, decides, ?_, settledBy_merge settled explicit alike⟩
      · rw [← List.cons_append, split, List.append_assoc, List.cons_append]
      · exact List.forall_mem_append.mpr ⟨plain, List.forall_mem_singleton.mpr explicit⟩
  contextValues := by
    cases values : other.contextValues with
    | none =>
      simp only [Key.merge, values, merged.contextValues, List.all_append, List.all_cons, List.flatMap_append]
      simp [values]
    | some brought =>
      have known := contexts_of_mergedFrom merged
      simp [Key.merge, values, addNew_eq, known, firstSeen_firstSeen]
  contextOf := by
    rw [← List.cons_append, List.findSome?_append, ← merged.contextOf]
    simp [Key.merge]
  isOpaque := by simp [Key.merge, merged.isOpaque, Bool.or_assoc]
  locations := by
    rw [← List.cons_append, List.flatMap_append, ← merged.locations]
    simp [Key.merge]

theorem mergedFrom_foldl_merge (same : ∀ other ∈ later, other.name = first.name) :
    first.MergedFrom later (later.foldl Key.merge first) := by
  induction later using List.reverseRecOn with
  | nil => exact mergedFrom_first first
  | append_singleton later other ih =>
    obtain ⟨earlier, last⟩ := List.forall_mem_append.mp same
    rw [List.foldl_append]
    exact mergedFrom_merge (ih earlier) (last other (List.mem_singleton_self other))

end Steps

/-- Sightings of one key that come in one after another, whatever other keys come in between them, leave one entry, and it
holds what the sightings come to. -/
theorem entry_of_sightings (defaultNamespace : String) (keys : KeyMap) (additions : List Addition) (first : Key)
    (later : List Key)
    (seen : (additions.filterMap (Addition.key? defaultNamespace)).filter
      (fun key => key.identity = first.identity) = first :: later)
    (same : ∀ other ∈ later, other.name = first.name) (new : Table.find? first.identity keys = none) :
    ∃ key, Table.find? first.identity (additions.foldl (Addition.run defaultNamespace) keys) = some key ∧
      first.MergedFrom later key := by
  refine ⟨later.foldl Key.merge first, ?_, mergedFrom_foldl_merge same⟩
  rw [Addition.foldl_run, find?_foldl_add, new, seen]

/-- A sighting of a key with a count. -/
def itemSighting (text : String) (explicit : Bool) (forms : List (String × String))
    (contexts : Option (List String)) (line : Nat) : Key where
  text := "item"
  namespaceName := "translation"
  defaultValue := some text
  explicitDefault := explicit
  plural := some { forms }
  contextValues := contexts
  locations := [⟨"src/a.ts", line, 0⟩]

def firstItem : Key := itemSighting "item" false [("few", "Few"), ("one", "One")] none 1

def statedItem : Key := itemSighting "Items" true [("other", "All")] (some ["b"]) 2

def lastItem : Key := itemSighting "Things" false [("other", "Rest"), ("one", "Single")] (some ["a", "b"]) 4

/-- The text and the forms of the explicit sighting stay, a form that it lacks comes from behind it, and none from before
it. -/
theorem entry_of_three_items :
    ∃ key, Table.find? "translation:item#plural"
        ([Addition.seen firstItem, .seen statedItem, .asked { text := some "title" }, .seen lastItem].foldl
          (Addition.run "translation") []) = some key ∧
      firstItem.MergedFrom [statedItem, lastItem] key ∧ key.defaultValue = some "Items" ∧
      key.plural = some { forms := [("other", "All"), ("one", "Single")] } ∧ key.contextValues = some ["b", "a"] := by
  have entry := entry_of_sightings "translation" []
    [.seen firstItem, .seen statedItem, .asked { text := some "title" }, .seen lastItem] firstItem
    [statedItem, lastItem] (by decide +kernel) (by decide) rfl
  obtain ⟨key, found, merged⟩ := entry
  refine ⟨key, found, merged, ?_⟩
  have known : key = { statedItem with
      plural := some { forms := [("other", "All"), ("one", "Single")] }
      contextValues := some ["b", "a"]
      locations := [⟨"src/a.ts", 1, 0⟩, ⟨"src/a.ts", 2, 0⟩, ⟨"src/a.ts", 4, 0⟩] } :=
    Option.some.inj (found.symm.trans (by decide +kernel))
  subst known
  exact ⟨rfl, rfl, rfl⟩

end Proofs.MergedSightings

end Phrasebook
