/-! Ways to compare the entries of one level of a catalog. -/

namespace Phrasebook

structure Sibling where
  key : String
  segment : String
  namespaceName : String
  isLeaf : Bool
  text : Option String
deriving DecidableEq, Repr

/-- A way to compare entries. Entries may count as alike, but the order has no circles; what sorting by anything
else gives is up to the way it is done. -/
structure Comparator where
  order : Sibling → Sibling → Ordering
  lawful : Std.TransCmp order

namespace Comparator

def on {κ : Type} [Ord κ] [Std.TransOrd κ] (key : Sibling → κ) : Comparator where
  order := compareOn key
  lawful := inferInstance

def thenBy (first second : Comparator) : Comparator where
  order := compareLex first.order second.order
  lawful :=
    have := first.lawful
    have := second.lawful
    inferInstance

def opposite (comparator : Comparator) : Comparator where
  order first second := comparator.order second first
  lawful :=
    have := comparator.lawful
    inferInstance

def length : Comparator := (on fun sibling => sibling.segment.length).thenBy (on Sibling.key)

def reverse : Comparator := (on Sibling.key).opposite

def leavesFirst : Comparator := on fun sibling => !sibling.isLeaf

def value : Comparator := on fun sibling => sibling.text.getD ""

def namespaceName : Comparator := on Sibling.namespaceName

def equal : Comparator := on fun _ => 0

end Comparator

instance : Inhabited Comparator := ⟨.equal⟩

end Phrasebook
