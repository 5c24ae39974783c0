import Phrasebook.Plural.Variant
import Phrasebook.Proofs.SearchWalks

/-! Which text a key has when none of its sightings is explicit. Every sighting comes with a text, be it the key
itself, so the first one leaves nothing missing that a later one could fill. -/

namespace Phrasebook

/-- A request completed by the forms that sightings give, those of earlier ones first. -/
def PluralRequest.completedBy (request : PluralRequest) (sightings : List Key) : PluralRequest :=
  { request with
    forms := (sightings.filterMap Key.plural).foldl (fun forms later => Key.completeForms forms later.forms)
      request.forms }

/-- What sightings that are not explicit leave of a key: its text stays, and its forms are completed. -/
structure Key.KeptBy (first : Key) (later : List Key) (key : Key) : Prop where
  defaultValue : key.defaultValue = first.defaultValue
  explicitDefault : key.explicitDefault = first.explicitDefault
  plural : key.plural = first.plural.map (·.completedBy later)

namespace Proofs.FirstSightings

open Catalog SearchSteps SearchWalks Syntax

section Merging

theorem keptBy_nothing (key : Key) : key.KeptBy [] key where
  defaultValue := rfl
  explicitDefault := rfl
  plural := by cases key.plural <;> rfl

/-- One more sighting that is not explicit leaves the text of a key that has one. -/
theorem keptBy_merge {key other : Key} (given : key.defaultValue.isSome = true)
    (plain : other.explicitDefault = false) : key.KeptBy [other] (key.merge other) where
  defaultValue := by
    obtain ⟨text, given⟩ := Option.isSome_iff_exists.mp given
    simp [Key.merge, plain, given]
  explicitDefault := by simp [Key.merge, plain]
  plural := by
    cases asked : key.plural with
    | none => simp [Key.merge, plain, asked]
    | some request =>
      cases later : other.plural with
      | none => simp [Key.merge, PluralRequest.completedBy, plain, asked, later]
      | some request => simp [Key.merge, PluralRequest.completedBy, plain, asked, later]

theorem completedBy_cons (request : PluralRequest) (other : Key) (later : List Key) :
    (request.completedBy [other]).completedBy later = request.completedBy (other :: later) := by
  cases asked : other.plural with
  | none => simp [PluralRequest.completedBy, asked]
  | some request => simp [PluralRequest.completedBy, asked]

/-- Sightings leave a key explicit as soon as one of them is. -/
theorem explicitDefault_foldl_merge {later : List Key} {key : Key} :
    (later.foldl Key.merge key).explicitDefault = false ↔
      key.explicitDefault = false ∧ ∀ other ∈ later, other.explicitDefault = false := by
  induction later generalizing key with
  | nil => simp
  | cons other later ih =>
    rw [List.foldl_cons, ih, List.forall_mem_cons, ← and_assoc]
    simp only [Key.merge, Bool.or_eq_false_iff, And.comm]

theorem keptBy_foldl_merge {later : List Key} {key : Key} (given : key.defaultValue.isSome = true)
    (plain : ∀ other ∈ later, other.explicitDefault = false) : key.KeptBy later (later.foldl Key.merge key) := by
  induction later generalizing key with
  | nil => exact keptBy_nothing key
  | cons other later ih =>
    have one := keptBy_merge given (plain other List.mem_cons_self)
    have rest := ih (one.defaultValue ▸ given) fun third member => plain third (List.mem_cons_of_mem _ member)
    refine ⟨rest.defaultValue.trans one.defaultValue, rest.explicitDefault.trans one.explicitDefault, ?_⟩
    have combined := rest.plural
    rw [one.plural, Option.map_map] at combined
    refine combined.trans (congrArg (Option.map · key.plural) (funext fun request => ?_))
    exact completedBy_cons request other later

end Merging

section Adding

/-- Adding a key changes what is found under its identity alone. -/
theorem find?_add (identity : String) (keys : KeyMap) (key : Key) :
    Table.find? identity (keys.add key) =
      if key.identity = identity then some ((Table.find? identity keys).elim key (·.merge key))
      else Table.find? identity keys := by
  unfold KeyMap.add
  by_cases same : key.identity = identity
  · subst same
    cases Table.find? key.identity keys <;> simp
  · rw [if_neg same]
    cases Table.find? key.identity keys <;> exact Table.find?_put_other (Ne.symm same) _ keys

/-- Under an identity the sightings of it stand merged in their order, whatever comes between them. -/
theorem find?_foldl_add (identity : String) (sightings : List Key) (keys : KeyMap) :
    Table.find? identity (sightings.foldl KeyMap.add keys) =
      match Table.find? identity keys, sightings.filter fun key => key.identity = identity with
      | some known, later => some (later.foldl Key.merge known)
      | none, first :: later => some (later.foldl Key.merge first)
      | none, [] => none := by
  induction sightings generalizing keys with
  | nil =>
    rw [List.foldl_nil]
    cases Table.find? identity keys <;> rfl
  | cons key sightings ih =>
    rw [List.foldl_cons, ih, find?_add]
    by_cases same : key.identity = identity
    · simp only [List.filter_cons, same, decide_true, if_true]
      cases Table.find? identity keys <;> rfl
    · simp only [List.filter_cons, same, decide_false, if_false, Bool.false_eq_true]

end Adding

section Sources

variable {settings : Settings}

/-- Where no plugin visits nodes, all that is done to keys is that some are seen. -/
theorem exists_sightings_of_possible (unvisited : ∀ plugin ∈ settings.plugins, plugin.visit = none)
    {kind : Key → Prop} {acts : List KeyAct} (possible : ∀ act ∈ acts, act.Possible settings kind) :
    ∃ sightings : List Key, (∀ key ∈ sightings, Usable key ∧ kind key) ∧
      ∀ keys, acts.foldl (KeyAct.run settings) keys = sightings.foldl KeyMap.add keys := by
  induction acts with
  | nil => exact ⟨[], List.forall_mem_nil _, fun _ => rfl⟩
  | cons act acts ih =>
    obtain ⟨sightings, usable, same⟩ := ih fun later member => possible later (List.mem_cons_of_mem _ member)
    have here := possible act List.mem_cons_self
    cases act with
    | saw key =>
      exact ⟨key :: sightings, List.forall_mem_cons.mpr ⟨here, usable⟩, fun keys => same (keys.add key)⟩
    | hook steps =>
      obtain ⟨plugin, known, hook, visits, -⟩ := here
      rw [unvisited plugin known] at visits
      cases visits

/-- A source has sightings at the nodes of its tree that are added to whatever keys were found before it, and a failure
in it is one of its text or met in reading its tree. -/
theorem exists_shown_sightings (unvisited : ∀ plugin ∈ settings.plugins, plugin.visit = none) (file code : String) :
    ∃ sightings : List Key,
      (∀ key ∈ sightings, Usable key ∧
        ∃ root, parse? (Dialect.ofPath file) code = some root ∧ ShownFrom (opening settings file) root key) ∧
      ∀ findings,
        (searchSource settings file code findings).2.keys = sightings.foldl KeyMap.add findings.keys ∧
        ∀ failure, (searchSource settings file code findings).1 = .error failure →
          failure = .unparsed file ∨ failure.OfReading := by
  cases parsed : parse? (Dialect.ofPath file) code with
  | none =>
    refine ⟨[], List.forall_mem_nil _, fun findings => ?_⟩
    rw [searchSource, parsed]
    exact ⟨rfl, fun failure ended => .inl (Except.error.inj ended).symm⟩
  | some root =>
    obtain ⟨effect, does⟩ := finds_source settings file root
    obtain ⟨acts, possible, change⟩ := does.made
    obtain ⟨sightings, usable, same⟩ := exists_sightings_of_possible unvisited possible
    refine ⟨sightings, fun key member => ⟨(usable key member).1, root, rfl, (usable key member).2⟩, fun findings => ?_⟩
    have ran := does.runs findings.keys findings.journal
    have whole : searchSource settings file code findings =
        (effect.result, effect.after ⟨findings.keys, {}, [], findings.journal⟩) := by
      rw [searchSource, parsed]
      exact ran
    rw [whole]
    refine ⟨(congrFun change findings.keys).trans (same findings.keys), fun failure ended => .inr ?_⟩
    exact does.legible failure ended

/-- A source has sightings, each with a text, that are added to whatever keys were found before it. -/
theorem exists_sightings (unvisited : ∀ plugin ∈ settings.plugins, plugin.visit = none) (file code : String) :
    ∃ sightings : List Key, (∀ key ∈ sightings, key.defaultValue.isSome = true) ∧
      ∀ findings, (searchSource settings file code findings).2.keys = sightings.foldl KeyMap.add findings.keys := by
  obtain ⟨sightings, shown, added⟩ := exists_shown_sightings unvisited file code
  exact ⟨sightings, fun key member => (shown key member).1.2, fun findings => (added findings).1⟩

/-- What a source makes of a key of which it has no explicit sighting. Where the key was found before, with a text, it
keeps that text; where it was not, it has the text of its first sighting. No text that a later sighting comes with is
taken, and a request for plurals is the one that was there first, with forms that were missing. -/
theorem first_sighting_gives_default (unvisited : ∀ plugin ∈ settings.plugins, plugin.visit = none)
    (file code : String) :
    ∃ sightings : List Key, (∀ key ∈ sightings, key.defaultValue.isSome = true) ∧
      ∀ findings, let keys := (searchSource settings file code findings).2.keys
        keys = sightings.foldl KeyMap.add findings.keys ∧
        ∀ identity key, Table.find? identity keys = some key → key.explicitDefault = false →
          let seen := sightings.filter fun key => key.identity = identity
          (∀ sighting ∈ seen, sighting.explicitDefault = false) ∧
          match Table.find? identity findings.keys with
          | some known => known.defaultValue.isSome = true → known.KeptBy seen key
          | none => ∃ first later, seen = first :: later ∧ first.KeptBy later key := by
  obtain ⟨sightings, given, added⟩ := exists_sightings unvisited file code
  refine ⟨sightings, given, fun findings => ⟨added findings, ?_⟩⟩
  intro identity key found plain
  rw [added, find?_foldl_add] at found
  cases known : Table.find? identity findings.keys with
  | some before =>
    rw [known] at found
    obtain rfl := Option.some.inj found
    have allPlain := (explicitDefault_foldl_merge.mp plain).2
    exact ⟨allPlain, fun filled => keptBy_foldl_merge filled allPlain⟩
  | none =>
    rw [known] at found
    cases seen : sightings.filter fun key => key.identity = identity with
    | nil =>
      rw [seen] at found
      cases found
    | cons first later =>
      rw [seen] at found
      obtain rfl := Option.some.inj found
      have member : first ∈ sightings := (List.mem_filter.mp (seen ▸ List.mem_cons_self)).1
      obtain ⟨firstPlain, laterPlain⟩ := explicitDefault_foldl_merge.mp plain
      have kept := keptBy_foldl_merge (given first member) laterPlain
      exact ⟨List.forall_mem_cons.mpr ⟨firstPlain, laterPlain⟩, first, later, rfl, kept⟩

end Sources

section Examples

def plainEnglish : Settings := { locales := ["en"], extraction := {} }

def keysIn (code : String) : KeyMap := (searchSource plainEnglish "src/a.tsx" code {}).2.keys

/-- A key as two calls or elements show it that are in the first line. -/
def seenTwice (text default : String) (plural : Option PluralRequest) (column : Nat) : Key where
  text
  namespaceName := "translation"
  defaultValue := some default
  plural
  locations := [⟨"src/a.tsx", 1, 0⟩, ⟨"src/a.tsx", 1, column⟩]

def callThenElement : String := "t('k'); <Trans i18nKey=\"k\">Hello</Trans>"

theorem call_gives_default_before_element :
    (∀ plugin ∈ plainEnglish.plugins, plugin.visit = none) ∧
    ∃ sightings : List Key, ∃ first later, keysIn callThenElement = sightings.foldl KeyMap.add [] ∧
      sightings.filter (fun key => key.identity = "translation:k") = first :: later ∧
      first.defaultValue = some "k" := by
  have unvisited : ∀ plugin ∈ plainEnglish.plugins, plugin.visit = none := List.forall_mem_nil _
  have found : Table.find? "translation:k" (keysIn callThenElement) = some (seenTwice "k" "k" none 8) := by
    decide +kernel
  obtain ⟨sightings, -, searched⟩ := first_sighting_gives_default unvisited "src/a.tsx" callThenElement
  obtain ⟨added, entries⟩ := searched {}
  obtain ⟨-, first, later, seen, kept⟩ := entries "translation:k" _ found rfl
  exact ⟨unvisited, sightings, first, later, added, seen, kept.defaultValue.symm⟩

def elementThenCall : String := "<Trans i18nKey=\"k\">Hello</Trans>; t('k');"

def countedCallThenElement : String :=
  "t('k', \x7bcount: 1\x7d); <Trans i18nKey=\"k\" count=\x7b1\x7d>Hello</Trans>"

/-- The text of an element is kept before a call of its key and lost behind it, and behind a call with a count it is
not among the texts of the plural either. -/
theorem text_of_element_is_lost_behind_call :
    keysIn elementThenCall = [("translation:k", seenTwice "k" "Hello" none 34)] ∧
    keysIn callThenElement = [("translation:k", seenTwice "k" "k" none 8)] ∧
    keysIn countedCallThenElement = [("translation:k#plural", seenTwice "k" "k" (some {}) 20)] ∧
    ∀ category, PluralRequest.textFor {} "k" category = "k" := by
  refine ⟨by decide +kernel, by decide +kernel, by decide +kernel, fun category => ?_⟩
  cases category <;> rfl

end Examples

end Proofs.FirstSightings

end Phrasebook
