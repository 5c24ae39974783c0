import Phrasebook.Proofs.FirstSightings

/-! Which sightings are put together in one entry. An entry stands under a text that is glued from the namespace, the
text and the kind of plural of a key, and the glue can be part of a namespace or a text, too. So sightings of one key
never come into two entries, but those of two keys can come into one. -/

namespace Phrasebook

/-- What tells one key from another: its namespace, its text, and whether it depends on a count or on an ordinal. -/
@[ext]
structure KeyName where
  namespaceName : String
  text : String
  ordinal : Option Bool
deriving DecidableEq, Repr

namespace KeyName

/-- What stands behind the text of a key for its kind of plural. -/
def mark (name : KeyName) : String :=
  match name.ordinal with
  | none => ""
  | some false => "#plural"
  | some true => "#ordinal"

def marked (name : KeyName) : String := name.text ++ name.mark

/-- The text under which a key with this name is kept. -/
def identity (name : KeyName) : String := name.namespaceName ++ ":" ++ name.marked

/-- Ways for a name to pass for another one. -/
inductive Mistaken (first second : KeyName) : Prop
  /-- The text of a plain key ends in the mark of the other one. -/
  | mark (same : first.namespaceName = second.namespaceName) (plain : first.ordinal = none)
      (counted : second.ordinal ≠ none) (text : first.text = second.marked)
  /-- What the text of one key begins with belongs to the namespace of the other one. -/
  | colon {between : String} (longer : second.namespaceName = first.namespaceName ++ ":" ++ between)
      (text : first.marked = between ++ ":" ++ second.marked)

def Confused (first second : KeyName) : Prop := first.Mistaken second ∨ second.Mistaken first

/-- Whether a name has nothing of the glue: no colon in the namespace and no mark behind the text of a plain key. -/
structure Clear (name : KeyName) : Prop where
  noColon : ':' ∉ name.namespaceName.toList
  unmarked : name.ordinal = none → ¬ "#plural".toList <:+ name.text.toList ∧ ¬ "#ordinal".toList <:+ name.text.toList

end KeyName

def Key.name (key : Key) : KeyName where
  namespaceName := key.namespaceName
  text := key.text
  ordinal := key.plural.map PluralRequest.ordinal

/-- What is added to the keys of a run: a key that is seen, or one that a plugin asks for. -/
inductive Addition where
  | seen (key : Key)
  | asked (request : KeyRequest)

namespace Addition

def run (defaultNamespace : String) (keys : KeyMap) : Addition → KeyMap
  | .seen key => keys.add key
  | .asked request => (KeyStep.run defaultNamespace [.add request] keys).1

/-- The key that comes in. A request may be none, or fail. -/
def key? (defaultNamespace : String) : Addition → Option Key
  | .seen key => some key
  | .asked request => (request.key? defaultNamespace).toOption.join

theorem run_eq (defaultNamespace : String) (keys : KeyMap) (addition : Addition) :
    addition.run defaultNamespace keys = (addition.key? defaultNamespace).elim keys keys.add := by
  cases addition with
  | seen key => rfl
  | asked request =>
    simp only [run, key?, KeyStep.run]
    rcases request.key? defaultNamespace with failure | _ | key <;> rfl

theorem foldl_run (defaultNamespace : String) (additions : List Addition) (keys : KeyMap) :
    additions.foldl (run defaultNamespace) keys =
      (additions.filterMap (key? defaultNamespace)).foldl KeyMap.add keys := by
  induction additions generalizing keys with
  | nil => rfl
  | cons addition additions ih =>
    rw [List.foldl_cons, ih, run_eq, List.filterMap_cons]
    cases addition.key? defaultNamespace <;> rfl

end Addition

namespace Proofs.KeyNames

open FirstSightings KeyName

section Glue

/-- Two texts around a colon are those around another one, or the first colon is part of what the second one stands
behind, or the other way round. -/
theorem append_colon_inj {first second third fourth : String} :
    first ++ ":" ++ second = third ++ ":" ++ fourth ↔
      (first = third ∧ second = fourth) ∨
        (∃ between, third = first ++ ":" ++ between ∧ second = between ++ ":" ++ fourth) ∨
        ∃ between, first = third ++ ":" ++ between ∧ fourth = between ++ ":" ++ second := by
  constructor
  · intro same
    have parts : first.toList ++ ':' :: second.toList = third.toList ++ ':' :: fourth.toList := by
      simpa using congrArg String.toList same
    rcases List.append_eq_append_iff.mp parts with ⟨rest, longer, split⟩ | ⟨rest, longer, split⟩
    · cases rest with
      | nil => exact .inl ⟨String.ext (by simpa using longer.symm), String.ext (List.cons.inj split).2⟩
      | cons character rest =>
        obtain ⟨rfl, split⟩ := List.cons.inj split
        refine .inr (.inl ⟨String.ofList rest, String.ext ?_, String.ext ?_⟩) <;> simpa
    · cases rest with
      | nil => exact .inl ⟨String.ext (by simpa using longer), String.ext (List.cons.inj split).2.symm⟩
      | cons character rest =>
        obtain ⟨rfl, split⟩ := List.cons.inj split
        refine .inr (.inr ⟨String.ofList rest, String.ext ?_, String.ext ?_⟩) <;> simpa
  · rintro (⟨rfl, rfl⟩ | ⟨between, rfl, rfl⟩ | ⟨between, rfl, rfl⟩) <;> simp only [String.append_assoc]

/-- The marks of the kinds of plurals end differently, so neither kind is taken for the other one. -/
theorem marked_inj_of_counted {first second : KeyName} (counted : first.ordinal ≠ none) (also : second.ordinal ≠ none)
    (same : first.marked = second.marked) : first.text = second.text ∧ first.ordinal = second.ordinal := by
  obtain ⟨kind, counted⟩ := Option.ne_none_iff_exists'.mp counted
  obtain ⟨other, also⟩ := Option.ne_none_iff_exists'.mp also
  have backwards := congrArg (fun text => text.toList.reverse) same
  cases kind <;> cases other <;> simp [marked, mark, counted, also, String.toList_inj] at backwards
  · exact ⟨backwards, counted.trans also.symm⟩
  · exact ⟨backwards, counted.trans also.symm⟩

theorem marked_of_plain {name : KeyName} (plain : name.ordinal = none) : name.marked = name.text := by
  simp [marked, mark, plain]

theorem eq_or_confused_of_marked {first second : KeyName} (same : first.namespaceName = second.namespaceName)
    (texts : first.marked = second.marked) : first = second ∨ Confused first second := by
  by_cases plain : first.ordinal = none
  · rw [marked_of_plain plain] at texts
    by_cases also : second.ordinal = none
    · rw [marked_of_plain also] at texts
      exact .inl (KeyName.ext same texts (plain.trans also.symm))
    · exact .inr (.inl (.mark same plain also texts))
  · by_cases also : second.ordinal = none
    · rw [marked_of_plain also] at texts
      exact .inr (.inr (.mark same.symm also plain texts.symm))
    · obtain ⟨text, kind⟩ := marked_inj_of_counted plain also texts
      exact .inl (KeyName.ext same text kind)

theorem identity_name (key : Key) : key.name.identity = key.identity := by
  cases asked : key.plural with
  | none => simp [Key.identity, Key.name, identity, marked, mark, asked]
  | some request =>
    cases kind : request.ordinal <;>
      simp [Key.identity, Key.name, identity, marked, mark, asked, kind, String.append_assoc]

theorem identity_of_mistaken {first second : KeyName} (mistaken : first.Mistaken second) :
    first.identity = second.identity := by
  rw [identity, identity, append_colon_inj]
  cases mistaken with
  | mark same plain counted text => exact .inl ⟨same, (marked_of_plain plain).trans text⟩
  | colon longer text => exact .inr (.inl ⟨_, longer, text⟩)

/-- Two names stand under one text just when they are the same or one passes for the other. -/
theorem identity_eq_iff {first second : KeyName} :
    first.identity = second.identity ↔ first = second ∨ Confused first second := by
  constructor
  · rw [identity, identity, append_colon_inj]
    rintro (⟨same, texts⟩ | ⟨between, longer, text⟩ | ⟨between, longer, text⟩)
    · exact eq_or_confused_of_marked same texts
    · exact .inr (.inl (.colon longer text))
    · exact .inr (.inr (.colon longer text))
  · rintro (rfl | mistaken | mistaken)
    · rfl
    · exact identity_of_mistaken mistaken
    · exact (identity_of_mistaken mistaken).symm

/-- Clear names are told apart by their texts. -/
theorem not_confused {first second : KeyName} (clear : first.Clear) (also : second.Clear) :
    ¬ Confused first second := by
  have apart {first second : KeyName} (clear : first.Clear) (also : second.Clear) : ¬ first.Mistaken second := by
    intro mistaken
    cases mistaken with
    | mark same plain counted text =>
      obtain ⟨kind, counted⟩ := Option.ne_none_iff_exists'.mp counted
      have ends : second.mark.toList <:+ first.text.toList := by
        rw [text, marked, String.toList_append]
        exact List.suffix_append _ _
      rw [mark, counted] at ends
      cases kind
      · exact (clear.unmarked plain).1 ends
      · exact (clear.unmarked plain).2 ends
    | colon longer text =>
      apply also.noColon
      rw [longer]
      simp
  rintro (mistaken | mistaken)
  · exact apart clear also mistaken
  · exact apart also clear mistaken

end Glue

section Entries

theorem nodup_names_foldl_add (added : List Key) : (Table.names (added.foldl KeyMap.add [])).Nodup := by
  refine List.foldlRecOn added KeyMap.add (motive := fun keys => (Table.names keys).Nodup) List.nodup_nil ?_
  intro keys distinct key _
  unfold KeyMap.add
  split <;> exact Table.nodup_names_put distinct _ _

/-- What stands under a text: the sightings with this text, merged in their order. -/
theorem mem_foldl_add_iff {added : List Key} {identity : String} {entry : Key} :
    (identity, entry) ∈ added.foldl KeyMap.add [] ↔
      ∃ first later, added.filter (fun key => key.identity = identity) = first :: later ∧
        later.foldl Key.merge first = entry := by
  rw [← Table.find?_eq_some_iff (nodup_names_foldl_add added), find?_foldl_add]
  cases added.filter fun key => key.identity = identity with
  | nil => simp [Table.find?]
  | cons first later => simp [Table.find?]

/-- A key that comes in has an entry. -/
theorem exists_entry {added : List Key} {key : Key} (member : key ∈ added) :
    ∃ entry, (key.identity, entry) ∈ added.foldl KeyMap.add [] := by
  have there : key ∈ added.filter fun other => other.identity = key.identity := by simp [member]
  obtain ⟨first, later, sightings⟩ := List.exists_cons_of_ne_nil (List.ne_nil_of_mem there)
  exact ⟨_, mem_foldl_add_iff.mpr ⟨first, later, sightings, rfl⟩⟩

/-- An entry is made of the sightings of a key and of those that its name passes for or whose names pass for it. -/
theorem sightings_of_entry {added : List Key} {identity : String} {entry : Key}
    (inside : (identity, entry) ∈ added.foldl KeyMap.add []) :
    ∃ first later, added.filter (fun key => key.identity = identity) = first :: later ∧
      later.foldl Key.merge first = entry ∧
      ∀ key ∈ first :: later, ∀ other ∈ added,
        other ∈ first :: later ↔ other.name = key.name ∨ Confused other.name key.name := by
  obtain ⟨first, later, sightings, merged⟩ := mem_foldl_add_iff.mp inside
  refine ⟨first, later, sightings, merged, fun key here other member => ?_⟩
  have under : key.identity = identity := by
    rw [← sightings] at here
    simpa using (List.mem_filter.mp here).2
  rw [← sightings, List.mem_filter, ← identity_eq_iff, identity_name, identity_name, under]
  simp [member]

/-- What comes of any additions: each key that comes in has one entry, each entry is made of the sightings under one
text, and with a sighting of one key it has those of another just when the two have the same name or one of the names
passes for the other. -/
theorem entries_of_additions (defaultNamespace : String) (additions : List Addition) :
    let keys := additions.foldl (Addition.run defaultNamespace) []
    let added := additions.filterMap (Addition.key? defaultNamespace)
    (Table.names keys).Nodup ∧ (∀ key ∈ added, ∃ entry, (key.identity, entry) ∈ keys) ∧
      ∀ identity entry, (identity, entry) ∈ keys →
        ∃ first later, added.filter (fun key => key.identity = identity) = first :: later ∧
          later.foldl Key.merge first = entry ∧
          ∀ key ∈ first :: later, ∀ other ∈ added,
            other ∈ first :: later ↔ other.name = key.name ∨ Confused other.name key.name := by
  intro keys added
  have same : keys = added.foldl KeyMap.add [] := Addition.foldl_run defaultNamespace additions []
  rw [same]
  exact ⟨nodup_names_foldl_add added, fun _ => exists_entry, fun _ _ => sightings_of_entry⟩

theorem name_merge {key other : Key} (same : other.name = key.name) : (key.merge other).name = key.name := by
  have kind : other.plural.map PluralRequest.ordinal = key.plural.map PluralRequest.ordinal :=
    congrArg KeyName.ordinal same
  refine KeyName.ext rfl rfl ?_
  cases asked : key.plural <;> cases later : other.plural <;> cases given : other.explicitDefault <;>
    simp_all [Key.name, Key.merge]

theorem name_foldl_merge {later : List Key} {first : Key} (same : ∀ other ∈ later, other.name = first.name) :
    (later.foldl Key.merge first).name = first.name := by
  induction later generalizing first with
  | nil => rfl
  | cons other later ih =>
    obtain ⟨here, rest⟩ := List.forall_mem_cons.mp same
    have merged := name_merge here
    rw [List.foldl_cons, ih fun third member => (rest third member).trans merged.symm, merged]

variable {added : List Key} (clear : ∀ key ∈ added, key.name.Clear)
include clear

/-- Among clear names, an entry has the name of all its sightings. -/
theorem name_of_entry {identity : String} {entry : Key} (inside : (identity, entry) ∈ added.foldl KeyMap.add []) :
    entry.identity = identity ∧ ∃ key ∈ added, key.name = entry.name := by
  obtain ⟨first, later, sightings, merged, same⟩ := sightings_of_entry inside
  obtain ⟨known, under⟩ : first ∈ added ∧ decide (first.identity = identity) = true :=
    List.mem_filter.mp (sightings ▸ List.mem_cons_self)
  have name : entry.name = first.name := by
    rw [← merged]
    refine name_foldl_merge fun other member => ?_
    have among : other ∈ first :: later := List.mem_cons_of_mem _ member
    have also : other ∈ added := (List.mem_filter.mp (sightings ▸ among)).1
    exact ((same first List.mem_cons_self other also).mp among).resolve_right
      (not_confused (clear other also) (clear first known))
  refine ⟨?_, first, known, name.symm⟩
  rw [← identity_name, name, identity_name, of_decide_eq_true under]

/-- Where all names are clear, the entries have the names of the keys that come in, each of them once. -/
theorem names_of_entries :
    ((added.foldl KeyMap.add []).map fun entry => entry.2.name).Nodup ∧
      ∀ name, name ∈ (added.foldl KeyMap.add []).map (fun entry => entry.2.name) ↔ ∃ key ∈ added, key.name = name := by
  have texts : ((added.foldl KeyMap.add []).map fun entry => entry.2.name).map KeyName.identity =
      Table.names (added.foldl KeyMap.add []) := by
    rw [List.map_map]
    exact List.map_congr_left fun entry inside => (identity_name entry.2).trans (name_of_entry clear inside).1
  have distinct : ((added.foldl KeyMap.add []).map fun entry => entry.2.name).Nodup :=
    List.Pairwise.of_map KeyName.identity (fun _ _ => mt (congrArg KeyName.identity))
      (texts ▸ nodup_names_foldl_add added)
  refine ⟨distinct, fun name => ⟨fun member => ?_, ?_⟩⟩
  · obtain ⟨entry, inside, rfl⟩ := List.mem_map.mp member
    exact (name_of_entry clear inside).2
  · rintro ⟨key, known, rfl⟩
    obtain ⟨entry, inside⟩ := exists_entry known
    obtain ⟨under, other, also, same⟩ := name_of_entry clear inside
    have alike : entry.name = key.name := by
      rw [← identity_name, ← identity_name, identity_eq_iff, ← same] at under
      exact same ▸ under.resolve_right (not_confused (clear other also) (clear key known))
    exact List.mem_map.mpr ⟨_, inside, alike⟩

end Entries

section Examples

/-- A plain key whose text ends as the mark of a plural does. -/
def markedItem : Key where
  text := "item#plural"
  namespaceName := "translation"
  defaultValue := some "item#plural"
  locations := [⟨"src/a.ts", 1, 0⟩]

def countedItem : Key where
  text := "item"
  namespaceName := "translation"
  defaultValue := some "item"
  plural := some {}
  locations := [⟨"src/a.ts", 1, 18⟩]

/-- A key that a plugin asks for in a namespace with a colon, and one whose text has it. -/
def nestedTitle : KeyRequest := { text := some "title", namespaces := ["admin:common"] }

def titleOfCommon : Key := { text := "common:title", namespaceName := "admin" }

/-- Two keys that differ come into one entry: one with a count into that of a plain key, and one of a namespace into
that of another namespace. -/
theorem different_keys_in_one_entry :
    markedItem.name ≠ countedItem.name ∧
      [Addition.seen markedItem, .seen countedItem].foldl (Addition.run "translation") [] =
        [("translation:item#plural", { markedItem with locations := markedItem.locations ++ countedItem.locations })] ∧
      (searchSource plainEnglish "src/a.ts" "t('item#plural'); t('item', \x7bcount: 1\x7d);" {}).2.keys =
        [("translation:item#plural", { markedItem with locations := markedItem.locations ++ countedItem.locations })] ∧
      [Addition.seen titleOfCommon, .asked nestedTitle].foldl (Addition.run "translation") [] =
        [("admin:common:title", titleOfCommon)] := by
  refine ⟨by decide, by decide +kernel, by decide +kernel, by decide +kernel⟩

end Examples

end Proofs.KeyNames

end Phrasebook
