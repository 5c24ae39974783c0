import Phrasebook.Proofs.CatalogText
import Phrasebook.Proofs.MergeLevels

/-! What reading gives, a text can stand for, and a merge makes nothing else of it as long as the values it makes up
are of this kind: on each of its levels a name of the tree leads to one value, and what is kept of the catalog has the
names it had there. -/

namespace Phrasebook.Catalog.Value

open Decimal

/-- A property of values that texts have, and objects whose names are distinct and whose values have it. -/
structure Hereditary (holds : Value → Prop) : Prop where
  text : ∀ value, holds (.text value)
  object : ∀ {entries : Entries}, (Table.names entries).Nodup → (∀ entry ∈ entries, holds entry.2) →
    holds (.object entries)
  names : ∀ {entries : Entries}, holds (.object entries) → (Table.names entries).Nodup
  inside : ∀ {entries : Entries}, holds (.object entries) → ∀ entry ∈ entries, holds entry.2

theorem Hereditary.empty {holds : Value → Prop} (hereditary : Hereditary holds) : holds (.object []) :=
  hereditary.object List.nodup_nil (List.forall_mem_nil _)

theorem Hereditary.entries {holds : Value → Prop} (hereditary : Hereditary holds) {value : Value} (given : holds value) :
    holds (.object value.entries) := by
  cases value with
  | object entries => exact given
  | _ => exact hereditary.empty

theorem hereditary_storable : Hereditary Storable := ⟨.text, .object, Storable.names, Storable.inside⟩

/-- A value as any text gives it: its numbers of 64 bits are such as rounding makes, and none of its objects names
anything twice. -/
inductive Rounded : Value → Prop
  | null : Rounded .null
  | truth (value : Bool) : Rounded (.truth value)
  | whole (value : ℤ) : Rounded (.whole value)
  | real {value : Binary64} (canonical : value.Canonical) : Rounded (.real value)
  | text (value : String) : Rounded (.text value)
  | list {items : List Value} (inside : ∀ item ∈ items, Rounded item) : Rounded (.list items)
  | object {entries : Entries} (names : (Table.names entries).Nodup) (inside : ∀ entry ∈ entries, Rounded entry.2) :
      Rounded (.object entries)

theorem Rounded.names {entries : Entries} : (Value.object entries).Rounded → (Table.names entries).Nodup
  | .object names _ => names

theorem Rounded.inside {entries : Entries} : (Value.object entries).Rounded → ∀ entry ∈ entries, entry.2.Rounded
  | .object _ inside => inside

theorem hereditary_rounded : Hereditary Rounded := ⟨.text, .object, Rounded.names, Rounded.inside⟩

theorem Storable.rounded {value : Value} (storable : value.Storable) : value.Rounded := by
  induction storable with
  | null => exact .null
  | truth value => exact .truth value
  | whole => exact .whole _
  | real canonical => exact .real canonical
  | text value => exact .text value
  | list _ ih => exact .list ih
  | object names _ ih => exact .object names ih

theorem Rounded.distinct {value : Value} (rounded : value.Rounded) : value.Distinct := by
  induction rounded with
  | object names _ ih => exact .object names ih
  | _ => exact .single rfl

end Phrasebook.Catalog.Value

namespace Phrasebook.Proofs.StorableValues

open Catalog Value Decimal Binary64 JsonText NearestNumber NumberText

section Reading

theorem digitsValue_lt {digits : List Char} (all : ∀ c ∈ digits, c.isDigit = true) :
    digitsValue digits < 10 ^ digits.length := by
  induction digits using List.reverseRecOn with
  | nil => exact Nat.one_pos
  | append_singleton digits c ih =>
    have shorter := ih fun other member => all other (List.mem_append_left _ member)
    have digit := all c (by simp)
    have low : c.toNat ≤ 57 := by
      simp only [Char.isDigit, Bool.and_eq_true, decide_eq_true_eq] at digit
      exact digit.2
    rw [digitsValue, List.foldl_append, List.foldl_cons, List.foldl_nil, ← digitsValue, List.length_append,
      List.length_singleton, pow_succ]
    omega

theorem isDigit_of_mem_wholeDigits {cs : List Char} {c : Char} (member : c ∈ wholeDigits cs) : c.isDigit = true := by
  unfold wholeDigits at member
  split at member
  · obtain rfl := List.mem_singleton.mp member
    rfl
  · exact List.mem_takeWhile_imp member

/-- A number has no more digits than it is written with. -/
theorem length_digitsOf_le {digits : List Char} (some : digits ≠ []) (all : ∀ c ∈ digits, c.isDigit = true) :
    (digitsOf (digitsValue digits)).length ≤ digits.length :=
  (Nat.length_toDigits_le_iff (by decide) (List.length_pos_iff.mpr some)).mpr (digitsValue_lt all)

theorem storable_of_unsignedNumber {negative : Bool} {cs behind : List Char} {found : Value}
    (reading : unsignedNumber negative cs = .ok (found, behind)) : found.Storable := by
  unfold unsignedNumber at reading
  dsimp only at reading
  split at reading
  · cases reading
  next some =>
    split at reading
    · split at reading
      · cases reading
      next few =>
        obtain ⟨rfl, _⟩ := Prod.mk.inj (Except.ok.inj reading)
        have short := length_digitsOf_le (by simpa using some) fun c member => isDigit_of_mem_wholeDigits member
        refine .whole ?_
        have size : (if negative then -(digitsValue (wholeDigits cs) : ℤ) else digitsValue (wholeDigits cs)).natAbs =
            digitsValue (wholeDigits cs) := by
          split <;> simp
        rw [size]
        exact short.trans (not_lt.mp few)
    · obtain ⟨rfl, _⟩ := Prod.mk.inj (Except.ok.inj reading)
      refine .real ?_
      rw [ofDecimal_eq]
      exact canonical_nearest negative (by positivity)

theorem storable_of_number {cs behind : List Char} {found : Value} (reading : number cs = .ok (found, behind)) :
    found.Storable := by
  unfold number at reading
  split at reading <;> exact storable_of_unsignedNumber reading

theorem storable_of_value_succ {steps : ℕ}
    (lists : ∀ cs found behind, items steps cs = .ok (found, behind) → ∀ item ∈ found, item.Storable)
    (objects : ∀ cs found behind, JsonText.entries steps cs = .ok (found, behind) → ∀ entry ∈ found, entry.2.Storable)
    {cs behind : List Char} {found : Value} (reading : value (steps + 1) cs = .ok (found, behind)) :
    found.Storable := by
  have only {first second : Value} {more rest : List Char}
      (same : Except.ok (first, more) = (.ok (second, rest) : Except Failure (Value × List Char)))
      (storable : first.Storable) : second.Storable := (Prod.mk.inj (Except.ok.inj same)).1 ▸ storable
  rw [value.eq_def] at reading
  dsimp only at reading
  split at reading
  · split at reading
    · exact only reading (.text _)
    · cases reading
  · split at reading
    · exact only reading (.list (by simp))
    · obtain ⟨⟨inside, after⟩, readingInside, rest⟩ := bind_eq_ok reading
      exact only rest (.list (lists _ inside after readingInside))
  · split at reading
    · exact only reading (.object List.nodup_nil (by simp))
    · obtain ⟨⟨inside, after⟩, readingInside, rest⟩ := bind_eq_ok reading
      refine only rest (.object (Table.nodup_names_ofList inside) fun entry member => ?_)
      exact objects _ inside after readingInside entry (Table.mem_of_mem_ofList member)
  · exact only reading .null
  · exact only reading (.truth _)
  · exact only reading (.truth _)
  · exact only reading (.real trivial)
  · exact only reading (.real trivial)
  · exact only reading (.real trivial)
  · exact storable_of_number reading

/-- What is read can be written: values, the items of lists and the entries of objects. -/
theorem storable_of_steps (steps : ℕ) :
    (∀ cs found behind, value steps cs = .ok (found, behind) → found.Storable) ∧
    (∀ cs found behind, items steps cs = .ok (found, behind) → ∀ item ∈ found, item.Storable) ∧
    (∀ cs found behind, JsonText.entries steps cs = .ok (found, behind) → ∀ entry ∈ found, entry.2.Storable) := by
  -- by induction on the steps left, on all three at once, since they call each other
  induction steps with
  | zero => simp [value, items, JsonText.entries]
  | succ steps ih =>
    obtain ⟨values, lists, objects⟩ := ih
    refine ⟨fun _ _ _ reading => storable_of_value_succ lists objects reading, ?_, ?_⟩
    · intro cs found behind reading
      rw [items] at reading
      obtain ⟨⟨first, after⟩, readingFirst, rest⟩ := bind_eq_ok reading
      dsimp only at rest
      split at rest
      · obtain ⟨rfl, _⟩ := Prod.mk.inj (Except.ok.inj rest)
        simpa using values _ _ _ readingFirst
      · obtain ⟨⟨others, _⟩, readingOthers, rest⟩ := bind_eq_ok rest
        obtain ⟨rfl, _⟩ := Prod.mk.inj (Except.ok.inj rest)
        exact List.forall_mem_cons.mpr ⟨values _ _ _ readingFirst, lists _ _ _ readingOthers⟩
      · cases rest
    · intro cs found behind reading
      rw [JsonText.entries.eq_def] at reading
      dsimp only at reading
      split at reading
      · split at reading
        · cases reading
        · split at reading
          · obtain ⟨⟨first, after⟩, readingFirst, rest⟩ := bind_eq_ok reading
            dsimp only at rest
            split at rest
            · obtain ⟨rfl, _⟩ := Prod.mk.inj (Except.ok.inj rest)
              simpa using values _ _ _ readingFirst
            · obtain ⟨⟨others, _⟩, readingOthers, rest⟩ := bind_eq_ok rest
              obtain ⟨rfl, _⟩ := Prod.mk.inj (Except.ok.inj rest)
              exact List.forall_mem_cons.mpr ⟨values _ _ _ readingFirst, objects _ _ _ readingOthers⟩
            · cases rest
          · cases reading
      · cases reading

theorem storable_of_read {text : String} {found : Value} (reading : JsonText.read text = .ok found) :
    found.Storable := by
  obtain ⟨⟨first, behind⟩, readingFirst, rest⟩ := bind_eq_ok reading
  dsimp only at rest
  split at rest
  · exact Except.ok.inj rest ▸ (storable_of_steps _).1 _ _ _ readingFirst
  · cases rest

end Reading

section Merging

open MergeLevels

variable {holds : Value → Prop} (hereditary : Hereditary holds) (merge : Merge)
include hereditary

theorem holds_of_unused? (value : Value) : holds value → ∀ (path : String) (kept : Value),
    merge.unused? path value = some kept → holds kept := by
  induction value using Value.induction with
  | object entries ih =>
    intro given path kept found
    rw [Merge.unused?] at found
    split at found
    · exact Option.some.inj found ▸ given
    · split at found
      · cases found
      · have names := (hereditary.names given).sublist (names_unusedEntries merge path entries)
        refine Option.some.inj found ▸ hereditary.object names ?_
        intro entry member
        obtain ⟨old, inside, keeps⟩ := mem_unusedEntries merge member
        exact ih _ inside (hereditary.inside given _ inside) _ _ keeps
  | null | truth _ | whole _ | real _ | text _ | list _ _ =>
    intro given path kept found
    simp only [Merge.unused?, Option.ite_none_right_eq_some] at found
    exact Option.some.inj found.2 ▸ given

omit hereditary in
theorem mem_of_mem_treeEntries {path : String} {existing : Entries} {entries : Tree.Entries Leaf}
    {entry : String × Value} (member : entry ∈ merge.treeEntries path existing entries) :
    ∃ tree, (entry.1, tree) ∈ entries ∧
      entry.2 = merge.treeValue (merge.policy.join path entry.1) (Table.find? entry.1 existing) tree := by
  induction entries with
  | nil => cases member
  | cons first rest ih =>
    rw [Merge.treeEntries] at member
    rcases List.mem_cons.mp member with rfl | later
    · exact ⟨first.2, List.mem_cons_self, rfl⟩
    · obtain ⟨tree, inside, same⟩ := ih later
      exact ⟨tree, List.mem_cons_of_mem _ inside, same⟩

/-- A level has the property when the values made for its tree have it. -/
theorem holds_level {path : String} {existing : Entries} {entries : Tree.Entries Leaf}
    (distinct : (Table.names entries).Nodup) (given : holds (.object existing))
    (made : ∀ entry ∈ entries, ∀ path existing, (∀ value ∈ existing, holds value) →
      holds (merge.treeValue path existing entry.2)) :
    holds (.object (merge.arrange path (level merge path existing entries))) := by
  refine hereditary.object ?_ fun entry member => ?_
  · have names := (arrange_perm merge path (level merge path existing entries)).map Prod.fst
    exact names.nodup_iff.mpr (nodup_names_level merge distinct (hereditary.names given))
  · rcases mem_of_mem_arrange merge member with ofTree | kept
    · obtain ⟨tree, inside, same⟩ := mem_of_mem_treeEntries merge ofTree
      rw [same]
      exact made _ inside _ _ fun value found => hereditary.inside given _ (Table.mem_of_find? found)
    · obtain ⟨old, inside, keeps⟩ := mem_unusedEntries merge kept
      exact holds_of_unused? hereditary merge old (hereditary.inside given _ (List.mem_filter.mp inside).1) _ _ keeps

variable (plain : ∀ request, holds (merge.policy.defaultSource.value request))
include plain

theorem holds_leafValue (path : String) (leaf : Leaf) {existing : Option Value}
    (given : ∀ value ∈ existing, holds value) : holds (merge.leafValue path leaf existing) := by
  unfold Merge.leafValue
  cases kept : (Merge.textAt? existing).filter fun _ => merge.keepsText leaf with
  | none =>
    rw [Option.getD_none, Merge.newValue]
    split
    · exact hereditary.text _
    · exact plain _
  | some value =>
    have text := (Option.filter_eq_some_iff.mp kept).1
    exact given value (Option.filter_eq_some_iff.mp text).1

theorem holds_treeValue (tree : Tree Leaf) : tree.Distinct → ∀ (path : String) (existing : Option Value),
    (∀ value ∈ existing, holds value) → holds (merge.treeValue path existing tree) := by
  induction tree using Tree.induction with
  | leaf leaf =>
    intro _ path existing given
    cases made : existing.filter fun _ => merge.copies path with
    | some value =>
      obtain ⟨rfl, copied⟩ := Option.filter_eq_some_iff.mp made
      exact (treeValue_eq_copy merge copied value _).symm ▸ given value rfl
    | none =>
      rw [treeValue_leaf merge made]
      exact holds_leafValue hereditary merge plain path leaf given
  | branch entries ih =>
    intro distinct path existing given
    cases made : existing.filter fun _ => merge.copies path with
    | some value =>
      obtain ⟨rfl, copied⟩ := Option.filter_eq_some_iff.mp made
      exact (treeValue_eq_copy merge copied value _).symm ▸ given value rfl
    | none =>
      rw [treeValue_branch merge made]
      refine holds_level hereditary merge distinct.names ?_ fun entry member =>
        ih entry member (distinct.inside entry member)
      rcases existing with _ | value
      · exact hereditary.empty
      · exact hereditary.entries (given value rfl)

/-- What a merge makes of a catalog has the property of the catalog. -/
theorem holds_content {existing : Entries} (given : holds (.object existing)) :
    holds (.object (merge.content existing)) :=
  holds_level hereditary merge merge.built.distinct.names given fun entry member =>
    holds_treeValue hereditary merge plain entry.2 (merge.built.distinct.inside entry member)

end Merging

end Phrasebook.Proofs.StorableValues
