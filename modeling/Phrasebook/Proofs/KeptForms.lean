import Phrasebook.Proofs.UnclaimedValues

/-! The forms of keys in use. A path is read back as a form of a key from its end: no category's name ends with
another's, so the category is the one that was written, and the key is the shortest beginning that leaves only a mark
and, for numbering, the word for it. A key that ends in neither is found again, and pruning keeps what it finds. -/

namespace Phrasebook

/-- The path of a form of a key: of one for counting, or of one for numbering. -/
def formPath (separator base : String) (category : Category) : (ordinal : Bool) → String
  | false => base ++ separator ++ category.name
  | true => base ++ separator ++ "ordinal" ++ separator ++ category.name

namespace Proofs.KeptForms

open Catalog MergedPlaces Places Pruning UnclaimedValues

section Endings

/-- No name of a category ends with the name of another. -/
theorem eq_of_name_suffix {first second : Category} (ends : first.name.toList <:+ second.name.toList) :
    first = second := by
  revert ends
  cases first <;> cases second <;> decide

theorem eq_of_append_name {front back : List Char} {first second : Category}
    (same : front ++ first.name.toList = back ++ second.name.toList) : first = second ∧ front = back := by
  have alike : first = second :=
    (List.suffix_or_suffix_of_suffix ⟨front, same⟩ (List.suffix_append back _)).elim eq_of_name_suffix
      fun ends => (eq_of_name_suffix ends).symm
  subst alike
  exact ⟨rfl, List.append_cancel_right same⟩

theorem append_name_ne_line (front back : List Char) (category : Category) :
    front ++ category.name.toList ≠ back ++ ['\n'] := by
  intro same
  have last := congrArg List.getLast? same
  cases category <;> simp [Category.name] at last

theorem categoryNamed?_name (category : Category) : categoryNamed? category.name.toList = some category := by
  cases category <;> rfl

theorem eq_name_of_categoryNamed? {text : List Char} {category : Category}
    (named : categoryNamed? text = some category) :
    text = category.name.toList ∨ text = category.name.toList ++ ['\n'] := by
  simpa using List.find?_some named

/-- What the path of a form has between the key and the separator before the category. -/
def formMark (separator : List Char) : (ordinal : Bool) → List Char
  | false => []
  | true => separator ++ "ordinal".toList

variable {separator : List Char}

theorem eq_of_plain {ending : List Char} {category : Category}
    (found : (Text.after? separator ending).bind categoryNamed? = some category) :
    ending = separator ++ category.name.toList ∨ ending = separator ++ category.name.toList ++ ['\n'] := by
  obtain ⟨behind, marked, named⟩ := Option.bind_eq_some_iff.mp found
  rw [Text.eq_append_of_after? marked, List.append_assoc, List.append_right_inj, List.append_right_inj]
  exact eq_name_of_categoryNamed? named

/-- Only the ending of a form has a category, a line break behind it aside. -/
theorem eq_of_endingCategory? {ending : List Char} {category : Category}
    (found : endingCategory? separator ending = some category) :
    ∃ ordinal, ending = formMark separator ordinal ++ separator ++ category.name.toList ∨
      ending = formMark separator ordinal ++ separator ++ category.name.toList ++ ['\n'] := by
  rcases (Option.orElse_eq_some _ _ _).mp found with numbered | ⟨_, counted⟩
  · obtain ⟨behind, marked, plain⟩ := Option.bind_eq_some_iff.mp numbered
    refine ⟨true, ?_⟩
    rw [Text.eq_append_of_after? marked, formMark]
    refine (eq_of_plain plain).imp ?_ ?_ <;>
      · rintro rfl
        simp only [List.append_assoc]
  · exact ⟨false, eq_of_plain counted⟩

theorem endingCategory?_form (category : Category) (ordinal : Bool) :
    endingCategory? separator (formMark separator ordinal ++ separator ++ category.name.toList) = some category := by
  have plain : (Text.after? separator (separator ++ category.name.toList)).bind categoryNamed? = some category := by
    rw [Segments.after?_append, Option.bind_some, categoryNamed?_name]
  have read : (endingCategory? separator (formMark separator ordinal ++ separator ++ category.name.toList)).isSome := by
    cases ordinal with
    | false =>
      simp only [endingCategory?, formMark, List.nil_append, plain, Option.orElse_eq_orElse, Option.orElse_eq_or,
        Option.isSome_or, Option.isSome_some, Bool.or_true]
    | true =>
      rw [endingCategory?, formMark, List.append_assoc, Segments.after?_append, Option.bind_some, plain]
      rfl
  obtain ⟨category', found⟩ := Option.isSome_iff_exists.mp read
  obtain ⟨numbered, same | same⟩ := eq_of_endingCategory? found
  · rw [found, (eq_of_append_name same).1]
  · exact absurd same (append_name_ne_line _ _ _)

/-- With the end of the key before it, the ending of a form is the ending of no other form. -/
theorem endingCategory?_eq_none {left : List Char} (some : left ≠ []) (free : left ≠ separator ++ "ordinal".toList)
    (category : Category) (ordinal : Bool) :
    endingCategory? separator (left ++ (formMark separator ordinal ++ separator ++ category.name.toList)) = none := by
  by_contra read
  obtain ⟨category', found⟩ := Option.ne_none_iff_exists'.mp read
  obtain ⟨numbered, same | same⟩ := eq_of_endingCategory? found <;> rw [← List.append_assoc] at same
  · have marks := List.append_cancel_right ((List.append_assoc ..).trans (eq_of_append_name same).2)
    cases numbered with
    | false => exact some (List.append_eq_nil_iff.mp marks).1
    | true =>
      cases ordinal with
      | false => exact free ((List.append_nil left).symm.trans marks)
      | true => exact some (List.append_left_eq_self.mp marks)
  · exact append_name_ne_line _ _ _ same

theorem findSome?_range {α : Type} {find : Nat → Option α} {value : α} (place count : Nat) (inside : place < count)
    (before : ∀ earlier < place, find earlier = none) (found : find place = some value) :
    (List.range count).findSome? find = some value := by
  have split : count = place + 1 + (count - (place + 1)) := by omega
  rw [split, List.range_add, List.range_succ, List.findSome?_append, List.findSome?_append,
    List.findSome?_eq_none_iff.mpr fun earlier member => before earlier (List.mem_range.mp member)]
  simp [found]

/-- A form of a key is read back as one: of that key and of its category. -/
theorem variantOf?_formPath {separator base : String} (named : base ≠ "") (line : '\n' ∉ base.toList)
    (free : ∀ front, base ≠ front ++ (separator ++ "ordinal")) (category : Category) (ordinal : Bool) :
    variantOf? separator (formPath separator base category ordinal) = some (base, category) := by
  have chars : (formPath separator base category ordinal).toList =
      base.toList ++ (formMark separator.toList ordinal ++ separator.toList ++ category.name.toList) := by
    cases ordinal <;>
      simp only [formPath, formMark, String.toList_append, List.nil_append, List.append_assoc]
  have long : 0 < base.toList.length := List.length_pos_iff.mpr (by simpa using named)
  simp only [variantOf?, chars]
  refine findSome?_range (base.toList.length - 1) _ ?_ ?_ ?_
  · rw [List.length_append]
    omega
  · intro earlier before
    have cut : base.toList.drop (earlier + 1) ≠ [] := by
      rw [ne_eq, List.drop_eq_nil_iff]
      omega
    have unmarked : base.toList.drop (earlier + 1) ≠ separator.toList ++ "ordinal".toList := by
      intro same
      apply free (String.ofList (base.toList.take (earlier + 1)))
      rw [← String.toList_inj, String.toList_append, String.toList_ofList, String.toList_append, ← same,
        List.take_append_drop]
    rw [List.drop_append_of_le_length (by omega), endingCategory?_eq_none cut unmarked, Option.map_none, ite_self]
  · have whole : base.toList.length - 1 + 1 = base.toList.length := Nat.sub_add_cancel long
    rw [whole, List.take_left, List.drop_left, endingCategory?_form]
    simp [line]

end Endings

/-- Every key that depends on a count has a text. -/
theorem notMem_pluralBases (settings : Settings) {keys : List Key} (usable : ∀ key ∈ keys, key.checked = .ok key)
    (namespaceName locale : String) : "" ∉ (Built.ofKeys settings keys namespaceName locale).pluralBases := by
  intro member
  obtain ⟨key, counted, empty⟩ := List.mem_map.mp ((Key.mem_addNew.mp member).resolve_left List.not_mem_nil)
  have known : key ∈ keys := (List.mem_filter.mp (List.mem_filter.mp counted).1).1
  have refused : key.checked = .error (.invalid "Key cannot be empty") := by
    rw [Key.checked, empty]
    rfl
  cases (usable key known).symm.trans refused

def countedPageItem : Key := { text := "page.item_one", namespaceName := "translation", plural := some {} }

/-- The forms that English has of a key whose own name ends like one. -/
def englishPage : Built :=
  .ofKeys { locales := ["en"], extraction := { primaryLanguage := some "en" } } [countedPageItem] "translation" "en"

def pageCatalog : Value :=
  .object [("page", .object [("item_one_few", .text "Few"), ("item_one_ordinal_zero", .null)])]

theorem distinct_pageCatalog : pageCatalog.Distinct := by
  refine .object (by decide) (List.forall_mem_singleton.mpr ?_)
  exact .object (by decide) (List.forall_mem_cons.mpr ⟨.single rfl, List.forall_mem_singleton.mpr (.single rfl)⟩)

theorem unclaimed_page {name : String} (fresh : name ∉ ["item_one_one", "item_one_other"]) :
    Unclaimed englishPage.entries ["page", name] := by
  apply Unclaimed.inside
  · with_unfolding_all rfl
  · exact .of_absent (Table.find?_eq_none_iff.mpr fresh) []

end Proofs.KeptForms

end Phrasebook
