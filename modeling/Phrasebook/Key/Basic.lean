import Phrasebook.Failure
import Phrasebook.Table
import Phrasebook.Text.Blank

/-! Translation keys found in sources: what each sighting of a key tells, and how sightings of the same key are
put together. -/

namespace Phrasebook

structure Location where
  file : String
  line : Nat
  column : Nat
deriving DecidableEq, Repr, Inhabited

namespace Location

def make (file : String) (line : Int) (column : Nat) : Except Failure Location :=
  if line < 1 then .error (.invalid "Line numbers start at 1") else .ok ⟨file, line.toNat, column⟩

end Location

structure PluralRequest where
  ordinal : Bool := false
  /-- The texts given for single categories. -/
  forms : List (String × String) := []
  /-- The text given for all categories. -/
  default : Option String := none
  /-- The text given beside the key in the call. -/
  callDefault : Option String := none
  explicitVariants : Bool := false
deriving DecidableEq, Repr, Inhabited

structure Key where
  text : String
  namespaceName : String
  defaultValue : Option String := none
  /-- Whether the default was written in the source, not made up from the key. -/
  explicitDefault : Bool := false
  plural : Option PluralRequest := none
  /-- The contexts in which a base key was seen. -/
  contextValues : Option (List String) := none
  /-- The base key that this key is a context variant of. -/
  contextOf : Option String := none
  /-- Whether the key stands for a whole object of the catalog. -/
  isOpaque : Bool := false
  locations : List Location := []
deriving DecidableEq, Repr, Inhabited

namespace Key

def checked (key : Key) : Except Failure Key :=
  if Text.isBlankText key.text then .error (.invalid "Key cannot be empty") else .ok key

/-- The text under which sightings of a key are put together: namespace, key and kind of plural. -/
def identity (key : Key) : String :=
  let base := key.namespaceName ++ ":" ++ key.text
  match key.plural with
  | none => base
  | some request => if request.ordinal then base ++ "#ordinal" else base ++ "#plural"

/-- The forms of an earlier request, completed by a later one. -/
def completeForms (forms later : List (String × String)) : List (String × String) :=
  later.foldl (fun forms (category, text) =>
    if Table.has category forms then forms else Table.put category text forms) forms

/-- The values of a list and then the new ones of another, each once. -/
def addNew (values later : List String) : List String :=
  later.foldl (fun values value => if values.contains value then values else values ++ [value]) values

theorem mem_addNew {value : String} {values later : List String} :
    value ∈ addNew values later ↔ value ∈ values ∨ value ∈ later := by
  induction later generalizing values with
  | nil => simp [addNew]
  | cons first later ih =>
    rw [addNew, List.foldl_cons, ← addNew, ih, List.mem_cons]
    split
    next known =>
      have member := List.contains_iff_mem.mp known
      exact ⟨Or.imp_right Or.inr, fun either => either.elim Or.inl fun new => new.elim (fun same => .inl (same ▸ member)) .inr⟩
    next => simp only [List.mem_append, List.mem_singleton, or_assoc]

theorem nodup_addNew {values : List String} (distinct : values.Nodup) (later : List String) :
    (addNew values later).Nodup := by
  induction later generalizing values with
  | nil => exact distinct
  | cons first later ih =>
    rw [addNew, List.foldl_cons, ← addNew]
    apply ih
    split
    · exact distinct
    next fresh =>
      rw [List.contains_iff_mem] at fresh
      refine List.nodup_append.mpr ⟨distinct, by simp, ?_⟩
      intro old member _ added same
      exact fresh (List.mem_singleton.mp added ▸ same ▸ member)

/-- A key after one more sighting. An explicit default replaces the default; any other only fills a missing
one. -/
def merge (key other : Key) : Key :=
  let defaultValue := if other.explicitDefault then other.defaultValue else key.defaultValue <|> other.defaultValue
  let plural :=
    if other.explicitDefault then other.plural <|> key.plural
    else
      match key.plural, other.plural with
      | some request, some later => some { request with forms := completeForms request.forms later.forms }
      | request, _ => request
  let contextValues :=
    match other.contextValues with
    | none => key.contextValues
    | some later => some (addNew (key.contextValues.getD []) later)
  { key with
    defaultValue
    plural
    contextValues
    explicitDefault := other.explicitDefault || key.explicitDefault
    contextOf := key.contextOf <|> other.contextOf
    isOpaque := key.isOpaque || other.isOpaque
    locations := key.locations ++ other.locations }

end Key

abbrev KeyMap := List (String × Key)

namespace KeyMap

def add (keys : KeyMap) (key : Key) : KeyMap :=
  match Table.find? key.identity keys with
  | none => Table.put key.identity key keys
  | some known => Table.put key.identity (known.merge key) keys

def toList (keys : KeyMap) : List Key := keys.map Prod.snd

end KeyMap

end Phrasebook
