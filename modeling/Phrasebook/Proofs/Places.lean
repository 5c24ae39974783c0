import Mathlib.Data.List.Infix
import Phrasebook.Catalog.Value
import Phrasebook.Tree.Basic

/-! Trees and catalogs by what stands where. A place is the list of names that leads to it; entering a leaf changes
a tree at its place alone, and takes away what stood on the way to it or below it. -/

namespace Phrasebook

namespace Tree

variable {α : Type}

def leafAt? : (place : List String) → Tree α → Option α
  | [], .leaf value => some value
  | [], .branch _ => none
  | _ :: _, .leaf _ => none
  | name :: rest, .branch entries => (Table.find? name entries).bind (leafAt? rest)

/-- The tree at a place. -/
def at? : (place : List String) → Tree α → Option (Tree α)
  | [], tree => some tree
  | _ :: _, .leaf _ => none
  | name :: rest, .branch entries => (Table.find? name entries).bind (at? rest)

theorem at?_append (first second : List String) (tree : Tree α) :
    at? (first ++ second) tree = (at? first tree).bind (at? second) := by
  induction first generalizing tree with
  | nil => rfl
  | cons name rest ih =>
    cases tree with
    | leaf value => rfl
    | branch entries =>
      rw [List.cons_append, at?, at?, Option.bind_assoc]
      exact Option.bind_congr fun inner _ => ih inner

theorem at?_isSome_of_prefix {above place : List String} {tree : Tree α} (before : above <+: place)
    (known : (at? place tree).isSome = true) : (at? above tree).isSome = true := by
  obtain ⟨further, rfl⟩ := before
  obtain ⟨inner, found⟩ := Option.isSome_iff_exists.mp known
  obtain ⟨middle, foundAbove, _⟩ := Option.bind_eq_some_iff.mp (at?_append above further tree ▸ found)
  exact Option.isSome_of_mem foundAbove

theorem Distinct.of_at? {place : List String} {tree inner : Tree α} (distinct : tree.Distinct)
    (found : at? place tree = some inner) : inner.Distinct := by
  induction place generalizing tree with
  | nil => exact Option.some.inj found ▸ distinct
  | cons name rest ih =>
    cases tree with
    | leaf value => cases found
    | branch entries =>
      obtain ⟨below, named, foundBelow⟩ := Option.bind_eq_some_iff.mp found
      exact ih (distinct.inside _ (Table.mem_of_find? named)) foundBelow

/-- A tree in which every branch leads to a leaf. -/
inductive Full : Tree α → Prop
  | leaf (value : α) : Full (.leaf value)
  | branch {entries : Entries α} (some : entries ≠ []) (inside : ∀ entry ∈ entries, Full entry.2) :
      Full (.branch entries)

end Tree

namespace Catalog.Value

/-- The value at a place. -/
def at? : (place : List String) → Value → Option Value
  | [], value => some value
  | name :: rest, .object entries => (Table.find? name entries).bind (at? rest)
  | _ :: _, _ => none

theorem at?_append (first second : List String) (value : Value) :
    value.at? (first ++ second) = (value.at? first).bind (at? second) := by
  induction first generalizing value with
  | nil => rfl
  | cons name rest ih =>
    cases value with
    | object entries =>
      rw [List.cons_append, at?, at?, Option.bind_assoc]
      exact Option.bind_congr fun inner _ => ih inner
    | _ => rfl

/-- A value in which no object has two entries of one name, inside other objects included. -/
inductive Distinct : Value → Prop
  | single {value : Value} (noObject : value.isObject = false) : Distinct value
  | object {entries : Entries} (names : (Table.names entries).Nodup) (inside : ∀ entry ∈ entries, Distinct entry.2) :
      Distinct (.object entries)

theorem Distinct.names {entries : Entries} : (Value.object entries).Distinct → (Table.names entries).Nodup
  | .object names _ => names

theorem Distinct.inside {entries : Entries} : (Value.object entries).Distinct → ∀ entry ∈ entries, entry.2.Distinct
  | .object _ inside => inside

theorem Distinct.entries {value : Value} (distinct : value.Distinct) : (Value.object value.entries).Distinct := by
  cases value with
  | object entries => exact distinct
  | _ => exact .object List.nodup_nil (by simp [Value.entries])

theorem Distinct.of_at? {place : List String} {value inner : Value} (distinct : value.Distinct)
    (found : value.at? place = some inner) : inner.Distinct := by
  induction place generalizing value with
  | nil => exact Option.some.inj found ▸ distinct
  | cons name rest ih =>
    cases value with
    | object entries =>
      obtain ⟨below, named, foundBelow⟩ := Option.bind_eq_some_iff.mp found
      exact ih (distinct.inside _ (Table.mem_of_find? named)) foundBelow
    | _ => cases found

end Catalog.Value

namespace Proofs.Places

open Phrasebook.Tree

variable {α : Type}

@[simp] theorem leafAt?_nil_branch (entries : Entries α) : leafAt? [] (.branch entries) = none := rfl

@[simp] theorem leafAt?_cons_branch (name : String) (rest : List String) (entries : Entries α) :
    leafAt? (name :: rest) (.branch entries) = (Table.find? name entries).bind (leafAt? rest) := rfl

theorem leafAt?_empty (place : List String) : leafAt? place (.branch ([] : Entries α)) = none := by
  cases place <;> rfl

theorem leafAt?_leaf (place : List String) (value : α) :
    leafAt? place (.leaf value) = if place = [] then some value else none := by
  cases place <;> rfl

theorem leafAt?_eq_some_iff {place : List String} {tree : Tree α} {value : α} :
    leafAt? place tree = some value ↔ at? place tree = some (.leaf value) := by
  induction place generalizing tree with
  | nil => cases tree <;> simp [leafAt?, at?]
  | cons name rest ih => cases tree <;> simp [leafAt?, at?, Option.bind_eq_some_iff, ih]

/-- A place that no leaf stands on the way to is a place of the tree, or leaves it at a name that one of its branches
does not have. -/
theorem at?_cases {place : List String} {entries : Entries α}
    (free : ∀ above, above <+: place → above ≠ place → leafAt? above (.branch entries) = none) :
    (at? place (.branch entries)).isSome = true ∨
      ∃ way name rest inner, place = way ++ name :: rest ∧ at? way (.branch entries) = some (.branch inner) ∧
        Table.find? name inner = none := by
  induction place generalizing entries with
  | nil => exact Or.inl rfl
  | cons name rest ih =>
    match found : Table.find? name entries with
    | none => exact Or.inr ⟨[], name, rest, entries, rfl, rfl, found⟩
    | some (.leaf value) =>
      by_cases last : rest = []
      · exact Or.inl (by simp [at?, found, last])
      · have blocked := free [name] (by simp) (by simpa using Ne.symm last)
        simp [leafAt?, found] at blocked
    | some (.branch inside) =>
      have further : ∀ above, above <+: rest → above ≠ rest → leafAt? above (.branch inside) = none := by
        intro above before different
        simpa [found] using free (name :: above) (by simpa using before) (by simpa using different)
      refine (ih further).imp (fun known => by simpa [at?, found] using known) ?_
      rintro ⟨way, left, others, inner, rfl, leads, lacks⟩
      exact ⟨name :: way, left, others, inner, rfl, by simpa [at?, found] using leads, lacks⟩

/-- What a tree holds in place of the one it is given has the same leaves below it. -/
theorem leafAt?_branchAt? {givesWay : α → Bool} {tree : Option (Tree α)} {entries : Entries α}
    (held : branchAt? givesWay tree = some entries) {place : List String} (below : place ≠ []) :
    leafAt? place (.branch entries) = tree.bind (leafAt? place) := by
  match tree with
  | none =>
    obtain rfl := Option.some.inj held
    exact leafAt?_empty place
  | some (.branch inside) =>
    obtain rfl := Option.some.inj held
    rfl
  | some (.leaf value) =>
    simp only [branchAt?, Option.ite_none_right_eq_some, Option.some.injEq] at held
    rw [← held.2, leafAt?_empty]
    simp [leafAt?_leaf, below]

/-- Entering a leaf puts it at its place and clears the way to it and what is below it. -/
theorem leafAt?_insertAt? {givesWay : α → Bool} {value : α} {place : List String} {entries after : Entries α}
    (entered : insertAt? givesWay (.leaf value) place entries = some after) (somewhere : place ≠ [])
    (other : List String) :
    leafAt? other (.branch after) =
      if other = place then some value
      else if place <+: other ∨ other <+: place then none
      else leafAt? other (.branch entries) := by
  fun_induction insertAt? givesWay (.leaf value) place entries generalizing after other with
  | case1 => exact absurd rfl somewhere
  | case2 segment entries =>
    obtain rfl := Option.some.inj entered
    cases other with
    | nil => simp
    | cons name rest =>
      by_cases same : name = segment
      · subst same
        by_cases here : rest = [] <;> simp [leafAt?_leaf, here]
      · simp [Table.find?_put_other same, same, Ne.symm same]
  | case3 => cases entered
  | case4 segment next rest entries level found ih =>
    obtain ⟨deeper, enteredInside, rfl⟩ := Option.map_eq_some_iff.mp entered
    cases other with
    | nil => simp
    | cons name others =>
      by_cases same : name = segment
      · subst same
        have inside := ih enteredInside (List.cons_ne_nil _ _) others
        by_cases here : others = []
        · subst here
          simp
        · rw [leafAt?_branchAt? found here] at inside
          simpa using inside
      · simp [Table.find?_put_other same, same, Ne.symm same]

/-- Entering a leaf succeeds when the leaves on the way to its place give way. -/
theorem insertAt?_isSome {givesWay : α → Bool} {tree : Tree α} {place : List String} {entries : Entries α}
    (way : ∀ above value, above <+: place → above ≠ place → leafAt? above (.branch entries) = some value →
      givesWay value = true) : (insertAt? givesWay tree place entries).isSome = true := by
  fun_induction insertAt? givesWay tree place entries with
  | case1 => rfl
  | case2 => rfl
  | case3 segment next rest entries blocked =>
    cases found : Table.find? segment entries with
    | none => simp [found, branchAt?] at blocked
    | some old =>
      cases old with
      | branch inside => simp [found, branchAt?] at blocked
      | leaf value =>
        have opens := way [segment] value (by simp) (by simp) (by simp [found, leafAt?_leaf])
        simp [found, branchAt?, opens] at blocked
  | case4 segment next rest entries level found ih =>
    rw [Option.isSome_map]
    apply ih
    intro above value before different held
    cases above with
    | nil => cases held
    | cons name others =>
      apply way (segment :: name :: others) value
      · simpa using before
      · simpa using different
      · rw [leafAt?_cons_branch, ← leafAt?_branchAt? found (List.cons_ne_nil _ _)]
        exact held

theorem full_put {entries : Entries α} {tree : Tree α} (full : ∀ entry ∈ entries, entry.2.Full) (inner : tree.Full)
    (name : String) : ∀ entry ∈ Table.put name tree entries, entry.2.Full := by
  intro entry member
  rcases Table.mem_put member with rfl | old
  · exact inner
  · exact full entry old

theorem full_branchAt? {givesWay : α → Bool} {name : String} {entries level : Entries α}
    (full : ∀ entry ∈ entries, entry.2.Full) (held : branchAt? givesWay (Table.find? name entries) = some level) :
    ∀ entry ∈ level, entry.2.Full := by
  match found : Table.find? name entries with
  | none => simp_all [branchAt?]
  | some (.leaf value) => simp_all [branchAt?]
  | some (.branch inside) =>
    rw [found] at held
    obtain rfl := Option.some.inj held
    cases full _ (Table.mem_of_find? found) with
    | branch _ below => exact below

theorem insertAt?_ne_nil {givesWay : α → Bool} {tree : Tree α} {place : List String} {entries after : Entries α}
    (entered : insertAt? givesWay tree place entries = some after) (somewhere : place ≠ []) : after ≠ [] := by
  fun_induction insertAt? givesWay tree place entries generalizing after with
  | case1 => exact absurd rfl somewhere
  | case2 segment entries => exact Option.some.inj entered ▸ Table.put_ne_nil segment tree entries
  | case3 => cases entered
  | case4 segment next rest entries level found _ =>
    obtain ⟨deeper, _, rfl⟩ := Option.map_eq_some_iff.mp entered
    exact Table.put_ne_nil _ _ _

theorem full_insertAt? {givesWay : α → Bool} {tree : Tree α} {place : List String} {entries after : Entries α}
    (full : ∀ entry ∈ entries, entry.2.Full) (inner : tree.Full)
    (entered : insertAt? givesWay tree place entries = some after) : ∀ entry ∈ after, entry.2.Full := by
  fun_induction insertAt? givesWay tree place entries generalizing after with
  | case1 => exact Option.some.inj entered ▸ full
  | case2 segment entries => exact Option.some.inj entered ▸ full_put full inner segment
  | case3 => cases entered
  | case4 segment next rest entries level found ih =>
    obtain ⟨deeper, enteredInside, rfl⟩ := Option.map_eq_some_iff.mp entered
    have some := insertAt?_ne_nil enteredInside (List.cons_ne_nil next rest)
    exact full_put full (.branch some (ih (full_branchAt? full found) enteredInside)) segment

theorem exists_leafAt? {tree : Tree α} (full : tree.Full) : ∃ place value, leafAt? place tree = some value := by
  induction tree using Tree.induction with
  | leaf value => exact ⟨[], value, rfl⟩
  | branch entries ih =>
    cases full with
    | branch some inside =>
      obtain ⟨⟨name, first⟩, rest, rfl⟩ := List.exists_cons_of_ne_nil some
      obtain ⟨place, value, held⟩ := ih _ List.mem_cons_self (inside _ List.mem_cons_self)
      exact ⟨name :: place, value, by simpa [Table.find?] using held⟩

end Proofs.Places

end Phrasebook
