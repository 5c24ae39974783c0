import Phrasebook.Key.Basic
import Phrasebook.Plural.Category

/-! The keys that stand in catalogs for a key with a context or a count. -/

namespace Phrasebook

/-- The variants of a key for contexts, each once. Empty contexts have none. -/
def contextVariants (key : String) (contexts : List String) (separator : String) : List String :=
  Key.addNew [] ((contexts.filter (· ≠ "")).map fun context => key ++ separator ++ context)

structure PluralVariant where
  key : String
  defaultValue : String
  /-- Whether the source gives the text for this form. -/
  explicit : Bool
  category : Option Category := none
deriving DecidableEq, Repr, Inhabited

namespace PluralRequest

def form? (request : PluralRequest) (category : Category) : Option String :=
  Table.find? category.name request.forms

/-- The text of a form without one of its own: the text for the rest, the text for all, the text in the call, and
at last the key. -/
def generalText (request : PluralRequest) (key : String) : String :=
  ((request.form? .other <|> request.default) <|> request.callDefault).getD key

/-- The text of a form. The text for all and the text in the call go to a single thing first. -/
def textFor (request : PluralRequest) (key : String) (category : Category) : String :=
  match request.form? category with
  | some text => text
  | none =>
    let shared := request.default <|> request.callDefault
    if category = .one then shared.getD (request.generalText key) else request.generalText key

def variants (request : PluralRequest) (key locale primary separator : String) : List PluralVariant :=
  match writtenCategories locale primary request.ordinal with
  | [] =>
    [{ key
       defaultValue := request.generalText key
       explicit := request.explicitVariants || (request.form? .other).isSome }]
  | categories =>
    let infixText := if request.ordinal then separator ++ "ordinal" else ""
    categories.map fun category =>
      { key := key ++ infixText ++ separator ++ category.name
        defaultValue := request.textFor key category
        explicit := request.explicitVariants || (request.form? category).isSome || (request.form? .other).isSome
        category := some category }

end PluralRequest

/-- The category that a text names, a line break at its end aside. -/
def categoryNamed? (text : List Char) : Option Category :=
  Category.all.find? fun category => text == category.name.toList || text == category.name.toList ++ ['\n']

/-- The category of an ending: a separator and a category's name, the word for numbering possibly before it. -/
def endingCategory? (separator ending : List Char) : Option Category :=
  let plain (ending : List Char) : Option Category := (Text.after? separator ending).bind categoryNamed?
  (Text.after? (separator ++ "ordinal".toList) ending).bind plain <|> plain ending

/-- The shortest key that a text is a form of, and the category of that form. Keys are of one line. -/
def variantOf? (separator text : String) : Option (String × Category) :=
  let cs := text.toList
  (List.range cs.length).findSome? fun place =>
    let base := cs.take (place + 1)
    if base.contains '\n' then none
    else (endingCategory? separator.toList (cs.drop (place + 1))).map fun category => (String.ofList base, category)

end Phrasebook
