import Phrasebook.Proofs.SourceIsolation

/-! Where the keys of a project come from. Each was seen in a source or brought by a plugin. When sightings are put
together, what a key counts as given by the source is something that one of its sightings counts so. -/

namespace Phrasebook

/-- Whether all forms of a plural count as given by the source, and no text is there for those without their own. -/
structure PluralRequest.Bare (request : PluralRequest) : Prop where
  explicit : request.explicitVariants = true
  default : request.default = none
  callDefault : request.callDefault = none

/-- The texts that a key counts as given by the source. -/
inductive Key.Counts (key : Key) (text : String) : Prop
  | default (explicit : key.explicitDefault = true) (same : key.defaultValue.getD key.text = text)
  | form {request : PluralRequest} (asked : request ∈ key.plural) (holds : request.Holds text)
  | rest {request : PluralRequest} (asked : request ∈ key.plural) (bare : request.Bare) (same : key.text = text)

/-- Whether a step of a hook brings a key. -/
def KeyStep.Brings (step : KeyStep) (defaultNamespace : String) (key : Key) : Prop :=
  match step with
  | .add request => request.key? defaultNamespace = .ok (some key)
  | .store stored => stored = .ok key
  | .delete _ => False
  | .fail _ => False

/-- Whether a plugin brings a key, at a node or behind all sources. -/
def Plugin.Brings (plugin : Plugin) (defaultNamespace : String) (key : Key) : Prop :=
  (∃ hook ∈ plugin.visit, ∃ step ∈ hook.steps, step.Brings defaultNamespace key) ∨
    ∃ hook ∈ plugin.atEnd, ∃ step ∈ hook.steps, step.Brings defaultNamespace key

namespace Proofs.KeyOrigins

open Catalog SearchSteps SearchWalks SiteReports SourceIsolation Syntax

/-- The tree of a source, as plugins change its text. -/
def tree? (settings : Settings) (files : Files) (file : String) : Option Node :=
  match files.read file with
  | .text code => parse? (Dialect.ofPath file) (Plugin.loadAll settings.plugins file code {}).1
  | _ => none

/-- Where a key can come from: it is seen in a source, or a plugin brings it. -/
inductive Origin (settings : Settings) (files : Files) (key : Key) : Prop
  | source {file : String} {root : Node} (among : file ∈ candidates settings files)
      (parsed : tree? settings files file = some root) (shown : ShownFrom (opening settings file) root key)
  | plugin {plugin : Plugin} (known : plugin ∈ settings.plugins)
      (brings : plugin.Brings settings.extraction.defaultNamespace key)

/-- Whether something holds of one of the keys of an identity that are where keys come from. -/
def From (origin : Key → Prop) (identity : String) (holds : Key → Prop) : Prop :=
  ∃ source, origin source ∧ source.identity = identity ∧ holds source

/-- Whether all that a key counts as given by the source is counted so where it comes from. A key can count its text as
given and have none; it then takes one of another sighting. -/
structure Rooted (origin : Key → Prop) (identity : String) (key : Key) : Prop where
  default : key.explicitDefault = true → From origin identity fun source =>
    source.explicitDefault = true ∧ (source.defaultValue = none ∨ source.defaultValue = key.defaultValue)
  forms : ∀ request ∈ key.plural, ∀ text, request.Holds text → From origin identity fun source =>
    ∃ given ∈ source.plural, given.Holds text
  rest : ∀ request ∈ key.plural, request.Bare → From origin identity fun source => ∃ given ∈ source.plural, given.Bare

variable {origin : Key → Prop} {identity : String} {keys : KeyMap}

section Merging

variable {key other : Key}

theorem rooted_of_origin (given : origin key) : Rooted origin key.identity key where
  default := fun explicit => ⟨key, given, rfl, explicit, .inr rfl⟩
  forms := fun request asked _ holds => ⟨key, given, rfl, request, asked, holds⟩
  rest := fun request asked bare => ⟨key, given, rfl, request, asked, bare⟩

theorem mem_completeForms {forms later : List (String × String)} {entry : String × String}
    (member : entry ∈ Key.completeForms forms later) : entry ∈ forms ∨ entry ∈ later := by
  induction later generalizing forms with
  | nil => exact .inl member
  | cons first later ih =>
    rw [Key.completeForms, List.foldl_cons, ← Key.completeForms] at member
    rcases ih member with reached | new
    · dsimp only at reached
      split at reached
      · exact .inl reached
      · rcases Table.mem_put reached with rfl | old
        · exact .inr List.mem_cons_self
        · exact .inl old
    · exact .inr (List.mem_cons_of_mem _ new)

/-- The request of a key after one more sighting is that of one of the two, completed by the forms of the other at
most. -/
theorem plural_merge {request : PluralRequest} (asked : request ∈ (key.merge other).plural) :
    request ∈ key.plural ∨ request ∈ other.plural ∨
      ∃ own ∈ key.plural, ∃ later ∈ other.plural,
        request = { own with forms := Key.completeForms own.forms later.forms } := by
  unfold Key.merge at asked
  dsimp only at asked
  split at asked
  · cases more : other.plural with
    | none =>
      rw [more] at asked
      exact .inl asked
    | some later =>
      rw [more] at asked
      exact .inr (.inl asked)
  · split at asked
    next own later one two =>
      exact .inr (.inr ⟨own, one, later, two, (Option.some.inj asked).symm⟩)
    next => exact .inl asked

theorem defaultValue_merge_of_explicit (explicit : other.explicitDefault = true) :
    (key.merge other).defaultValue = other.defaultValue := if_pos explicit

theorem defaultValue_merge_of_plain (plain : other.explicitDefault = false) :
    (key.merge other).defaultValue = (key.defaultValue <|> other.defaultValue) :=
  if_neg (Bool.eq_false_iff.mp plain)

/-- One more sighting adds what it counts as given itself. -/
theorem Rooted.merge (rooted : Rooted origin identity key) (further : Rooted origin identity other) :
    Rooted origin identity (key.merge other) where
  default := by
    intro explicit
    cases given : other.explicitDefault with
    | true =>
      rw [defaultValue_merge_of_explicit given]
      exact further.default given
    | false =>
      have before : key.explicitDefault = true := (Bool.or_eq_true_iff.mp explicit).resolve_left (by simp [given])
      obtain ⟨source, stems, same, counts, text⟩ := rooted.default before
      refine ⟨source, stems, same, counts, ?_⟩
      rw [defaultValue_merge_of_plain given]
      cases held : key.defaultValue with
      | none =>
        rw [held, or_self] at text
        exact .inl text
      | some value =>
        rw [held] at text
        exact text
  forms := by
    intro request asked text holds
    rcases plural_merge asked with own | new | ⟨own, before, later, behind, rfl⟩
    · exact rooted.forms request own text holds
    · exact further.forms request new text holds
    · rcases holds with ⟨entry, member, same⟩ | shared
      · rcases mem_completeForms member with old | new
        · exact rooted.forms own before text (.inl ⟨entry, old, same⟩)
        · exact further.forms later behind text (.inl ⟨entry, new, same⟩)
      · exact rooted.forms own before text (.inr shared)
  rest := by
    intro request asked bare
    rcases plural_merge asked with own | new | ⟨own, before, later, -, rfl⟩
    · exact rooted.rest request own bare
    · exact further.rest request new bare
    · exact rooted.rest own before ⟨bare.explicit, bare.default, bare.callDefault⟩

end Merging

/-- Whether every key is rooted under its name. -/
def AllRooted (origin : Key → Prop) (keys : KeyMap) : Prop := ∀ entry ∈ keys, Rooted origin entry.1 entry.2

theorem allRooted_put {key : Key} (rooted : AllRooted origin keys) (here : Rooted origin identity key) :
    AllRooted origin (Table.put identity key keys) := by
  intro entry member
  rcases Table.mem_put member with rfl | old
  · exact here
  · exact rooted entry old

theorem allRooted_add {key : Key} (rooted : AllRooted origin keys) (given : origin key) :
    AllRooted origin (keys.add key) := by
  have here := rooted_of_origin given
  unfold KeyMap.add
  split
  · exact allRooted_put rooted here
  next known found => exact allRooted_put rooted ((rooted _ (Table.mem_of_find? found)).merge here)

/-- The steps of a hook leave keys rooted when what they bring is where keys come from. -/
theorem allRooted_run {defaultNamespace : String} {steps : List KeyStep}
    (brought : ∀ step ∈ steps, ∀ key, step.Brings defaultNamespace key → origin key) (rooted : AllRooted origin keys) :
    AllRooted origin (KeyStep.run defaultNamespace steps keys).1 := by
  induction steps generalizing keys with
  | nil => exact rooted
  | cons step rest ih =>
    have here := brought step List.mem_cons_self
    replace ih {keys : KeyMap} := @ih keys fun later member => brought later (List.mem_cons_of_mem _ member)
    cases step with
    | add request =>
      rw [KeyStep.run]
      split
      · exact rooted
      · exact ih rooted
      next key asked => exact ih (allRooted_add rooted (here key asked))
    | store stored =>
      cases stored with
      | error failure => exact rooted
      | ok key => exact ih (allRooted_put rooted (rooted_of_origin (here key rfl)))
    | delete name =>
      rw [KeyStep.run]
      split
      · exact ih fun entry member => rooted entry (Table.mem_of_mem_erase member)
      · exact rooted
    | fail message => exact rooted

section Sources

variable {settings : Settings} {files : Files} {file : String}

theorem allRooted_acts {root : Node} (among : file ∈ candidates settings files)
    (parsed : tree? settings files file = some root) {change : KeyMap → KeyMap}
    (made : ByActs settings (ShownFrom (opening settings file) root) change)
    (rooted : AllRooted (Origin settings files) keys) : AllRooted (Origin settings files) (change keys) := by
  obtain ⟨acts, possible, rfl⟩ := made
  refine List.foldlRecOn (motive := AllRooted (Origin settings files)) acts (KeyAct.run settings) rooted ?_
  intro keys rooted act member
  have here := possible act member
  cases act with
  | saw key => exact allRooted_add rooted (.source among parsed here.2)
  | hook steps =>
    obtain ⟨plugin, known, hook, given, rfl⟩ := here
    refine allRooted_run (fun step member key brings => ?_) rooted
    exact .plugin known (.inl ⟨hook, given, step, member, brings⟩)

theorem allRooted_keysAfter (among : file ∈ candidates settings files)
    (rooted : AllRooted (Origin settings files) keys) :
    AllRooted (Origin settings files) (keysAfter settings files keys file) := by
  cases processed : canProcess settings files file with
  | false =>
    rw [keysAfter_of_not_canProcess processed]
    exact rooted
  | true =>
    unfold canProcess at processed
    split at processed
    next code held =>
      obtain ⟨root, parsed⟩ := Option.isSome_iff_exists.mp processed
      obtain ⟨effect, searched, -, made⟩ := exists_searched_of_parsed held parsed
      rw [keysAfter, searched.keys]
      refine allRooted_acts among ?_ made rooted
      rw [tree?, held]
      exact parsed
    next => cases processed

theorem allRooted_endSearch {findings : Findings} (rooted : AllRooted (Origin settings files) findings.keys) :
    AllRooted (Origin settings files) (endSearch settings findings).keys := by
  unfold endSearch Plugin.endAll
  refine List.foldlRecOn (motive := fun reached : KeyMap × Journal => AllRooted (Origin settings files) reached.1)
    settings.plugins _ rooted ?_
  rintro ⟨keys, journal⟩ rooted plugin known
  dsimp only at rooted ⊢
  cases given : plugin.atEnd with
  | none => exact rooted
  | some hook =>
    dsimp only
    split
    · exact rooted
    · have brought (step : KeyStep) (member : step ∈ hook.steps) (key : Key)
          (brings : step.Brings settings.extraction.defaultNamespace key) : Origin settings files key :=
        .plugin known (.inr ⟨hook, given, step, member, brings⟩)
      have after := allRooted_run brought rooted
      split <;> exact after

/-- All keys that are found in a project are rooted in its sources and plugins. -/
theorem allRooted_found {journal : Journal} {found : ProjectKeys}
    (ended : (findKeys settings files journal).1 = .ok found) : AllRooted (Origin settings files) found.keys := by
  have result := findKeys_of_contained (contained_of_findKeys ended) journal
  obtain rfl := Except.ok.inj (ended.symm.trans result)
  refine allRooted_endSearch ?_
  refine List.foldlRecOn (motive := AllRooted (Origin settings files)) _ _ (List.forall_mem_nil _) ?_
  intro keys rooted file member
  exact allRooted_keysAfter (List.mem_filter.mp member).1 rooted

end Sources

end Proofs.KeyOrigins

end Phrasebook
