import Phrasebook.Table
import Phrasebook.Text.Split

/-! Trees of named branches, and entering a leaf at a path of segments. -/

namespace Phrasebook

inductive Tree (α : Type) where
  | leaf (value : α)
  | branch (entries : List (String × Tree α))
deriving Repr, Inhabited

namespace Tree

variable {α : Type}

abbrev Entries (α : Type) := List (String × Tree α)

/-- Induction over trees: what holds of all trees of a branch holds of the branch. -/
@[elab_as_elim]
theorem induction {motive : Tree α → Prop} (leaf : ∀ value, motive (.leaf value))
    (branch : ∀ entries, (∀ entry ∈ entries, motive entry.2) → motive (.branch entries)) (tree : Tree α) :
    motive tree := by
  refine Tree.rec (motive_2 := fun entries => ∀ entry ∈ entries, motive entry.2)
    (motive_3 := fun entry => motive entry.2) leaf branch (by simp) ?_ (fun _ _ inside => inside) tree
  intro entry rest first later other member
  rcases List.mem_cons.mp member with same | inside
  · exact same ▸ first
  · exact later other inside

/-- A tree in which no branch has two trees of one name. -/
inductive Distinct : Tree α → Prop
  | leaf (value : α) : Distinct (.leaf value)
  | branch {entries : Entries α} (names : (Table.names entries).Nodup)
      (inside : ∀ entry ∈ entries, Distinct entry.2) : Distinct (.branch entries)

theorem Distinct.empty : (Tree.branch ([] : Entries α)).Distinct := .branch List.nodup_nil (by simp)

theorem Distinct.names {entries : Entries α} : (Tree.branch entries).Distinct → (Table.names entries).Nodup
  | .branch names _ => names

theorem Distinct.inside {entries : Entries α} : (Tree.branch entries).Distinct → ∀ entry ∈ entries, entry.2.Distinct
  | .branch _ inside => inside

theorem Distinct.put {entries : Entries α} {tree : Tree α} (distinct : (Tree.branch entries).Distinct) (name : String)
    (inner : tree.Distinct) : (Tree.branch (Table.put name tree entries)).Distinct := by
  refine .branch (Table.nodup_names_put distinct.names name tree) ?_
  intro entry member
  rcases Table.mem_put member with rfl | old
  · exact inner
  · exact distinct.inside entry old

/-- What a tree holds in place of the one it is given: nothing at all, or a leaf that gives way, counts as an
empty branch, and any other leaf is in the way. -/
def branchAt? (givesWay : α → Bool) : Option (Tree α) → Option (Entries α)
  | none => some []
  | some (.branch entries) => some entries
  | some (.leaf value) => if givesWay value then some [] else none

/-- Enters a tree at a path of segments, with branches on the way to it. There is none when a leaf is in the
way. -/
def insertAt? (givesWay : α → Bool) (tree : Tree α) : List String → Entries α → Option (Entries α)
  | [], entries => some entries
  | [segment], entries => some (Table.put segment tree entries)
  | segment :: next :: rest, entries =>
    match branchAt? givesWay (Table.find? segment entries) with
    | none => none
    | some inner =>
      (insertAt? givesWay tree (next :: rest) inner).map fun inner => Table.put segment (.branch inner) entries

/-- Enters a tree under a path. Where a leaf is in the way of its segments, and where nothing separates segments,
the root takes it under the whole path. -/
def insert (givesWay : α → Bool) (separator : Option String) (path : String) (tree : Tree α)
    (entries : Entries α) : Entries α :=
  match separator with
  | none => Table.put path tree entries
  | some mark => (insertAt? givesWay tree (Text.split mark path) entries).getD (Table.put path tree entries)

theorem Distinct.insertAt? {givesWay : α → Bool} {tree : Tree α} {path : List String} {entries after : Entries α}
    (distinct : (Tree.branch entries).Distinct) (inner : tree.Distinct)
    (entered : Tree.insertAt? givesWay tree path entries = some after) : (Tree.branch after).Distinct := by
  fun_induction Tree.insertAt? givesWay tree path entries generalizing after with
  | case1 entries => exact Option.some.inj entered ▸ distinct
  | case2 segment entries => exact Option.some.inj entered ▸ distinct.put segment inner
  | case3 => cases entered
  | case4 segment next rest entries level found ih =>
    obtain ⟨deeper, enteredInside, rfl⟩ := Option.map_eq_some_iff.mp entered
    refine distinct.put segment (ih ?_ enteredInside)
    cases seen : Table.find? segment entries with
    | none => simp_all [branchAt?, Distinct.empty]
    | some old =>
      have oldDistinct := distinct.inside _ (Table.mem_of_find? seen)
      cases old with
      | leaf value =>
        simp only [seen, branchAt?, Option.ite_none_right_eq_some, Option.some.injEq] at found
        exact found.2 ▸ .empty
      | branch inside =>
        simp only [seen, branchAt?, Option.some.injEq] at found
        exact found ▸ oldDistinct

theorem Distinct.insert {entries : Entries α} {tree : Tree α} (distinct : (Tree.branch entries).Distinct)
    (inner : tree.Distinct) (givesWay : α → Bool) (separator : Option String) (path : String) :
    (Tree.branch (Tree.insert givesWay separator path tree entries)).Distinct := by
  cases separator with
  | none => exact distinct.put path inner
  | some mark =>
    cases entered : Tree.insertAt? givesWay tree (Text.split mark path) entries with
    | none => simpa [Tree.insert, entered] using distinct.put path inner
    | some after => simpa [Tree.insert, entered] using distinct.insertAt? inner entered

end Tree

end Phrasebook
