import Phrasebook.Proofs.KeptForms

/-! The forms that a key with a count has in a locale. Every language has a form for the rest, so a locale has some form
whatever it is called. Its forms stand in the order of their names under keys of their own, and each of these keys is
read back as the key and the category that it was made of. -/

namespace Phrasebook.Proofs.PluralForms

open KeptForms

theorem other_mem_of_categoriesIn {groups : List LanguageGroup}
    (rest : ∀ group ∈ groups, Category.other ∈ group.categories) {language : String} {categories : List Category}
    (found : categoriesIn groups language = some categories) : Category.other ∈ categories := by
  obtain ⟨group, seen, rfl⟩ := Option.map_eq_some_iff.mp found
  exact rest group (List.mem_of_find?_eq_some seen)

/-- Every locale has a form for the rest, for counting and for numbering. -/
theorem other_mem_pluralCategories (locale : String) (ordinal : Bool) :
    Category.other ∈ pluralCategories locale ordinal := by
  have counting : ∀ group ∈ cardinalGroups, Category.other ∈ group.categories := by decide
  have numbering : ∀ group ∈ ordinalGroups, Category.other ∈ group.categories := by decide
  have entry {groups : List LanguageGroup} (rest : ∀ group ∈ groups, Category.other ∈ group.categories)
      {first second : String} {categories : List Category}
      (found : (categoriesIn groups first <|> categoriesIn groups second) = some categories) :
      Category.other ∈ categories := by
    rcases (Option.orElse_eq_some _ _ _).mp found with here | ⟨_, there⟩
    · exact other_mem_of_categoriesIn rest here
    · exact other_mem_of_categoriesIn rest there
  cases ordinal with
  | true =>
    simp only [pluralCategories, ite_true]
    split
    next found => exact entry numbering found
    next => split <;> decide
  | false =>
    simp only [pluralCategories, Bool.false_eq_true, ite_false]
    match found : (categoriesIn cardinalGroups (String.ofList (normalizedLocale locale)) <|>
        categoriesIn cardinalGroups (String.ofList ((normalizedLocale locale).takeWhile (· ≠ '-')))) with
    | some categories => exact entry counting found
    | none => decide

section Written

variable {locale primary : String} {ordinal : Bool}

variable (locale primary ordinal) in
/-- The order of the categories that are written is that of their names. -/
theorem ascending_writtenCategories :
    (writtenCategories locale primary ordinal).Pairwise fun first second => first.name < second.name := by
  have ascending : Category.alphabetical.Pairwise fun first second => first.name < second.name := by decide
  unfold writtenCategories
  split
  · exact List.Pairwise.nil
  · exact ascending.filter _

theorem writtenCategories_of_single (single : pluralCategories primary ordinal = [.other]) :
    writtenCategories locale primary ordinal = [] := by
  rw [writtenCategories, hasSingleForm, single]
  rfl

theorem mem_writtenCategories (several : pluralCategories primary ordinal ≠ [.other]) {category : Category} :
    category ∈ writtenCategories locale primary ordinal ↔ category ∈ pluralCategories locale ordinal := by
  have known : category ∈ Category.alphabetical := by cases category <;> decide
  have distinguishes : hasSingleForm primary ordinal = false := by simpa [hasSingleForm] using several
  simp [writtenCategories, distinguishes, known]

end Written

section Variants

variable {request : PluralRequest} {key locale primary separator : String}

theorem variants_of_single (single : pluralCategories primary request.ordinal = [.other]) :
    ∃ variant, request.variants key locale primary separator = [variant] ∧ variant.key = key ∧
      variant.category = none := by
  rw [PluralRequest.variants, writtenCategories_of_single single]
  exact ⟨_, rfl, rfl, rfl⟩

theorem formPath_eq (base : String) (category : Category) (ordinal : Bool) :
    formPath separator base category ordinal =
      base ++ (if ordinal then separator ++ "ordinal" else "") ++ separator ++ category.name := by
  cases ordinal
  · simp [formPath]
  · simp [formPath, String.append_assoc]

theorem formPath_ne_base (base : String) (category : Category) (ordinal : Bool) :
    formPath separator base category ordinal ≠ base := by
  intro same
  have lengths := congrArg String.length same
  have named : 0 < category.name.length := by cases category <;> decide
  simp only [formPath_eq, String.length_append] at lengths
  omega

variable (key locale separator) in
/-- Each category that is written makes one variant. -/
theorem variants_of_several (several : pluralCategories primary request.ordinal ≠ [.other]) :
    ∃ form : Category → PluralVariant,
      request.variants key locale primary separator = (writtenCategories locale primary request.ordinal).map form ∧
      ∀ category, (form category).category = some category ∧
        (form category).key = formPath separator key category request.ordinal := by
  have written : writtenCategories locale primary request.ordinal ≠ [] :=
    List.ne_nil_of_mem ((mem_writtenCategories several).mpr (other_mem_pluralCategories locale request.ordinal))
  unfold PluralRequest.variants
  split
  next none => exact absurd none written
  next => exact ⟨_, rfl, fun category => ⟨rfl, (formPath_eq key category request.ordinal).symm⟩⟩

end Variants

/-- What is made of a request for a key. Where the primary language has no form but the one for the rest, the key stands
for itself. Otherwise there is one variant for each category that the locale has, in the order of the categories' names
and under different keys, and each of these keys is read back as the key and the category. -/
theorem variants_read_back (request : PluralRequest) (key locale primary separator : String) (named : key ≠ "")
    (line : '\n' ∉ key.toList) (free : ∀ front, key ≠ front ++ (separator ++ "ordinal")) :
    let variants := request.variants key locale primary separator
    (pluralCategories primary request.ordinal = [.other] →
      ∃ variant, variants = [variant] ∧ variant.key = key ∧ variant.category = none) ∧
    (pluralCategories primary request.ordinal ≠ [.other] →
      ∃ categories : List Category,
        (∀ category, category ∈ categories ↔ category ∈ pluralCategories locale request.ordinal) ∧
        categories.Pairwise (fun first second => first.name < second.name) ∧
        variants.map PluralVariant.category = categories.map some ∧
        (variants.map PluralVariant.key).Nodup ∧
        ∀ variant ∈ variants, variant.key ≠ key ∧
          ∃ category, variant.category = some category ∧ variantOf? separator variant.key = some (key, category)) := by
  intro variants
  refine ⟨variants_of_single, fun several => ?_⟩
  obtain ⟨form, made, parts⟩ := variants_of_several key locale separator several
  change variants = _ at made
  have read (category : Category) : variantOf? separator (form category).key = some (key, category) := by
    rw [(parts category).2]
    exact variantOf?_formPath named line free category request.ordinal
  have ascending := ascending_writtenCategories locale primary request.ordinal
  refine ⟨_, fun category => mem_writtenCategories several, ascending, ?_, ?_, ?_⟩
  · rw [made, List.map_map]
    exact List.map_congr_left fun category _ => (parts category).1
  · -- two categories under one key would be read back as one
    rw [made, List.map_map]
    refine List.Pairwise.map _ (fun first second before same => ?_) ascending
    rw [Function.comp_apply, Function.comp_apply] at same
    have alike := (read first).symm.trans (same ▸ read second)
    rw [(Prod.mk.inj (Option.some.inj alike)).2] at before
    exact String.lt_irrefl _ before
  · rw [made]
    intro variant member
    obtain ⟨category, _, rfl⟩ := List.mem_map.mp member
    refine ⟨?_, category, (parts category).1, read category⟩
    rw [(parts category).2]
    exact formPath_ne_base key category request.ordinal

def numbered : PluralRequest := { ordinal := true, forms := [("two", "second")] }

/-- A key that ends like a form itself, in a language that has all the categories for numbering. -/
theorem welsh_forms_of_item_one :
    pluralCategories "en" true ≠ [.other] ∧
      ∃ categories : List Category, (∀ category, category ∈ categories) ∧
        (numbered.variants "item_one" "cy" "en" "_").map PluralVariant.category = categories.map some ∧
        ∀ variant ∈ numbered.variants "item_one" "cy" "en" "_",
          ∃ category, variantOf? "_" variant.key = some ("item_one", category) := by
  have several : pluralCategories "en" true ≠ [.other] := by decide +kernel
  have free (front : String) : "item_one" ≠ front ++ ("_" ++ "ordinal") := by
    intro same
    have ends := congrArg (fun text => text.toList.getLast?) same
    simp at ends
  obtain ⟨categories, known, _, order, _, back⟩ :=
    (variants_read_back numbered "item_one" "cy" "en" "_" (by decide) (by decide) free).2 several
  have all (category : Category) : category ∈ pluralCategories "cy" true := by cases category <;> decide +kernel
  refine ⟨several, categories, fun category => (known category).mpr (all category), order, ?_⟩
  intro variant member
  obtain ⟨_, category, _, read⟩ := back variant member
  exact ⟨category, read⟩

end Phrasebook.Proofs.PluralForms
