import Phrasebook.Proofs.FirstSightings

/-! What the keys of a source are called. Each way on which a key is cut, put behind a prefix or joined with a context
leaves it a text, so no blank key stops the search. Each way but one gives it a namespace with a name: a reference with
nothing in front of the mark of a namespace gives it the empty one. -/

namespace Phrasebook.Proofs.NamedKeys

open Catalog FirstSightings SearchFailures SearchSteps SearchWalks SiteReports Syntax

/-- Whether a source has a reference that asks for a key with nothing in front of the mark that ends a namespace. -/
def RefersNameless (settings : Settings) (file code : String) (key : Key) : Prop :=
  ∃ root way there node site, parse? (Dialect.ofPath file) code = some root ∧
    Reaches (opening settings file) root way there node ∧ SiteAt there.extraction node site ∧
    AskedNameless there site.node key

/-- Whether a key that a source shows has a text, and a namespace with a name unless a reference asks for the key
without one. -/
structure Named (settings : Settings) (file code : String) (key : Key) : Prop where
  text : Text.isBlankText key.text = false
  namespaceName : key.namespaceName = "" → RefersNameless settings file code key

variable {settings : Settings}

section Adding

/-- A key that was added has the text and the namespace of one that was there before or of a sighting. -/
theorem name_of_mem_foldl_add {keys : KeyMap} {sightings : List Key} {entry : String × Key}
    (member : entry ∈ sightings.foldl KeyMap.add keys) :
    ∃ key ∈ keys.toList ++ sightings, key.text = entry.2.text ∧ key.namespaceName = entry.2.namespaceName := by
  induction sightings generalizing keys with
  | nil => exact ⟨entry.2, List.mem_append_left _ (List.mem_map_of_mem member), rfl, rfl⟩
  | cons sighting sightings ih =>
    have old {entry : String × Key} (before : entry ∈ keys) : entry.2 ∈ keys.toList ++ sighting :: sightings :=
      List.mem_append_left _ (List.mem_map_of_mem before)
    obtain ⟨key, among, same⟩ := ih member
    rcases List.mem_append.mp among with known | later
    · obtain ⟨⟨identity, key⟩, inside, rfl⟩ := List.mem_map.mp known
      unfold KeyMap.add at inside
      split at inside
      · rcases Table.mem_put inside with equal | before
        · obtain ⟨rfl, rfl⟩ := Prod.mk.inj equal
          exact ⟨_, by simp, same⟩
        · exact ⟨key, old before, same⟩
      next earlier found =>
        rcases Table.mem_put inside with equal | before
        · -- one more sighting leaves a key its text and its namespace
          obtain ⟨rfl, rfl⟩ := Prod.mk.inj equal
          exact ⟨earlier, old (Table.mem_of_find? found), same⟩
        · exact ⟨key, old before, same⟩
    · exact ⟨key, by simp [later], same⟩

end Adding

section Walks

theorem task_entering (situation : Situation) (node : Node) : (entering situation node).task = situation.task := by
  unfold entering
  split <;> rfl

/-- A walk comes to all nodes with the same task. -/
theorem task_of_reaches {situation there : Situation} {node found : Node} {way : List Stage}
    (reaches : Reaches situation node way there found) : there.task = situation.task := by
  induction reaches with
  | here declared => exact task_entering _ _
  | inside children seen before below ih => exact ih.trans (task_entering _ _)

theorem named_of_shownFrom {file code : String} {root : Node} (general : settings.extraction.defaultNamespace ≠ "")
    (parsed : parse? (Dialect.ofPath file) code = some root) {key : Key} (usable : Usable key)
    (shown : ShownFrom (opening settings file) root key) : Named settings file code key := by
  obtain ⟨way, there, node, reaches, site, here, -, supplies⟩ := shown
  have same : there.extraction = settings.extraction :=
    congrArg (fun task : Task => task.settings.extraction) (task_of_reaches reaches)
  refine ⟨usable.1, fun nameless => ?_⟩
  have asked := (supplies.namespaceName nameless).resolve_left (same ▸ general)
  exact ⟨root, way, there, node, site, parsed, reaches, here, asked⟩

theorem ne_of_reading {failure : Failure} (met : failure.OfReading) : failure ≠ .invalid "Key cannot be empty" := by
  rintro rfl
  obtain impossible | impossible | ⟨message, among, same⟩ := message_of_reading met
  · cases impossible
  · cases impossible
  · obtain rfl := Failure.invalid.inj same
    revert among
    decide

/-- What is said of an element is never cut off by a blank key. -/
theorem element_ne_blank (situation : Situation) (element : Node) (keys : KeyMap) (journal : Journal) :
    (outcome (Search.reportTranslated element) situation.task (situation.holding keys journal)).1 ≠
      .error (.invalid "Key cannot be empty") := by
  have reports : Reports situation (Supplies situation element) (Search.reportTranslated element) fun _ => True :=
    reports_reportTranslated element
  obtain ⟨report, does, legible, -⟩ := reports
  rw [does.runs]
  exact fun blank => ne_of_reading (legible _ blank) rfl

end Walks

/-- Each key that is there behind a source was there before it, or the source shows it: then it has a text, and a
namespace with a name unless a reference asks for it with nothing in front of the mark. The search is never stopped by
a blank key, nor is what is said of an element: it ends early only for the text of the source or at something that
reading its tree meets. -/
theorem searched_keys_named (settings : Settings) (unvisited : ∀ plugin ∈ settings.plugins, plugin.visit = none)
    (general : settings.extraction.defaultNamespace ≠ "") (file code : String) (findings : Findings) :
    (∀ entry ∈ (searchSource settings file code findings).2.keys,
      ∃ key, key.text = entry.2.text ∧ key.namespaceName = entry.2.namespaceName ∧
        (key ∈ findings.keys.toList ∨ Named settings file code key)) ∧
      (∀ failure, (searchSource settings file code findings).1 = .error failure →
        failure ≠ .invalid "Key cannot be empty" ∧ (failure = .unparsed file ∨ failure.OfReading)) ∧
      ∀ scopes constants element keys journal,
        (outcome (Search.reportTranslated element) ⟨settings, file⟩ ⟨keys, scopes, constants, journal⟩).1 ≠
          .error (.invalid "Key cannot be empty") := by
  obtain ⟨sightings, shown, searched⟩ := exists_shown_sightings unvisited file code
  obtain ⟨added, ends⟩ := searched findings
  refine ⟨fun entry member => ?_, fun failure ended => ⟨?_, ends failure ended⟩, fun scopes constants => ?_⟩
  · rw [added] at member
    obtain ⟨key, among, text, namespaceName⟩ := name_of_mem_foldl_add member
    refine ⟨key, text, namespaceName, (List.mem_append.mp among).imp_right fun seen => ?_⟩
    obtain ⟨usable, root, parsed, shownFrom⟩ := shown key seen
    exact named_of_shownFrom general parsed usable shownFrom
  · rcases ends failure ended with unparsed | met
    · rintro rfl
      cases unparsed
    · exact ne_of_reading met
  · exact element_ne_blank ⟨⟨settings, file⟩, scopes, constants⟩

section Examples

def blankThenKey : String := "t('  ', \x7bcontext: 'x'\x7d); t('common:b');"

/-- A blank key is passed over, and the key behind it is found with its namespace. -/
theorem key_behind_blank_key :
    (keysIn blankThenKey).map Prod.fst = ["common:b"] ∧
      ∀ entry ∈ keysIn blankThenKey, ∃ key, key.text = entry.2.text ∧ key.namespaceName = entry.2.namespaceName ∧
        Named plainEnglish "src/a.tsx" blankThenKey key := by
  refine ⟨by decide +kernel, fun entry member => ?_⟩
  have named := searched_keys_named plainEnglish (List.forall_mem_nil _) (by decide) "src/a.tsx" blankThenKey {}
  obtain ⟨key, text, namespaceName, before | shown⟩ := named.1 entry member
  · cases before
  · exact ⟨key, text, namespaceName, shown⟩

def namelessReference : String := "t('a', 'see $t(:x)');"

/-- A reference stores a key whose namespace has no name. -/
theorem reference_stores_nameless_key :
    plainEnglish.plugins = [] ∧ plainEnglish.extraction.defaultNamespace = "translation" ∧
      (keysIn namelessReference).map (fun entry => (entry.2.namespaceName, entry.2.text)) =
        [("translation", "a"), ("", "x")] := by
  refine ⟨rfl, rfl, by decide +kernel⟩

end Examples

end Phrasebook.Proofs.NamedKeys
