import Phrasebook.Catalog.Value
import Phrasebook.Settings.Basic

/-! The order of the entries of one level of a catalog. -/

namespace Phrasebook

open Catalog

namespace Order

/-- The entries of a level in order. `keyOf` tells the whole key of a segment. Entries that compare alike stay as
they are. -/
def arrange (order : Order) (namespaceName : String) (keyOf : String → String) (entries : Entries) : Entries :=
  match order with
  | .unsorted | .unset => entries
  | .ascending => entries.mergeSort fun first second => first.1 ≤ second.1
  | .by comparator =>
    let sibling (entry : String × Value) : Sibling :=
      { key := keyOf entry.1
        segment := entry.1
        namespaceName
        isLeaf := !entry.2.isObject
        text := entry.2.text? }
    entries.mergeSort fun first second => comparator.order (sibling first) (sibling second) != .gt

end Order

end Phrasebook
