import Phrasebook.Proofs.CallReadings
import Phrasebook.Proofs.FirstSightings

/-! Keys that comments hint at, and the patterns of paths that are kept anyway. A key is to be skipped where a pattern
covers it, but it is looked at as the call writes it, before its namespace, the text of a binding and a context are
known, while catalogs look at the whole path, alone and behind its namespace. So a hint adds a key whose path is kept
just where a pattern covers the path in a form that the call does not write. -/

namespace Phrasebook.Proofs.HintedKeys

open CallReadings CallsAndElements Catalog SearchSteps SiteReports Syntax

variable {situation : Situation} {call : Node} {skips : Option (String → Bool)}

/-- A key that a call adds itself: for a key that it writes and of which so much is left behind the namespace, perhaps
with a context behind it. -/
def AddsItself (situation : Situation) (call : Node) (skips : Option (String → Bool)) (written inner : String) (key : Key) :
    Prop :=
  ∃ setting optionDefault named whole, Reads situation call setting optionDefault named ∧
    written ∈ (situation.extraction.added skips named).map situation.extraction.bare ∧
    Takes situation setting written key.namespaceName inner whole ∧
    (key.text = whole ∨ ∃ context, key.text = whole ++ situation.extraction.contextSeparator ++ context)

/-- A text of a call that may refer to other keys: its default text, or one of its keys as a whole. -/
def RefersBy (situation : Situation) (call : Node) (skips : Option (String → Bool)) (text : String) : Prop :=
  ∃ setting optionDefault named, Reads situation call setting optionDefault named ∧
    (text ∈ (optionDefault <|> setting.callDefault) ∨
      ∃ written namespaceName inner, written ∈ (situation.extraction.added skips named).map situation.extraction.bare ∧
        Takes situation setting written namespaceName inner text)

section Calls

theorem of_mem_sighting {extraction : Extraction} {sighting : Sighting} {key : Key}
    (member : key ∈ sighting.keys extraction) : key.namespaceName = sighting.namespaceName ∧
      (key.text = sighting.key ∨ ∃ context, key.text = sighting.key ++ extraction.contextSeparator ++ context) := by
  rcases List.mem_append.mp member with varied | base
  · obtain ⟨context, -, rfl⟩ := List.mem_map.mp varied
    exact ⟨rfl, .inr ⟨context, rfl⟩⟩
  · split at base
    · obtain rfl := List.mem_singleton.mp base
      exact ⟨rfl, .inl rfl⟩
    · cases base

theorem reports_referred {kind : Key → Prop} {text : String} (fits : ∀ key ∈ situation.extraction.referred text, kind key) :
    Reports situation kind (Search.reportReferences text) fun _ => True :=
  ((yields_reportReferences text).reports fits).mono fun _ _ => trivial

/-- The keys that a call adds are those of the keys that it writes, and those that its texts refer to. -/
theorem reports_keysOfCall (place : Option (Nat × Nat)) :
    Reports situation
      (fun key => (∃ written inner, AddsItself situation call skips written inner key) ∨
        ∃ text, RefersBy situation call skips text ∧ key ∈ situation.extraction.referred text)
      (Search.reportCall call skips place) fun _ => True := by
  refine opens_reportCall .reports (fun _ => .done _) fun setting optionDefault _ named reads among => ?_
  refine .forM ?_
  rintro ⟨written, index⟩ member
  have inside : written ∈ (situation.extraction.added skips named).map situation.extraction.bare :=
    List.fst_mem_of_mem_zipIdx member
  have filled : Text.isBlankText written = false := filled_of_mem_added inside
  refine opens_reportCallKey .reports filled among (fun _ _ _ => .done _) fun sighting sights => ?_
  obtain ⟨inner, takes⟩ := sights.taken
  refine ((yields_report (sights.filled filled)).reports fun key member => ?_).bind fun _ _ => ?_
  · obtain ⟨same, text⟩ := of_mem_sighting member
    exact .inl ⟨written, inner, setting, optionDefault, named, sighting.key, reads, inside, same ▸ takes, text⟩
  · refine .ite (fun _ => (reports_referred ?_).bind fun _ _ => .forMOption fun text held => reports_referred ?_)
      fun _ => .done _
    · exact fun key member =>
        .inr ⟨_, ⟨setting, optionDefault, named, reads, .inr ⟨written, _, inner, inside, takes⟩⟩, member⟩
    · exact fun key member => .inr ⟨_, ⟨setting, optionDefault, named, reads, .inl held⟩, member⟩

end Calls

section Patterns

variable {extraction : Extraction} {namespaceName written inner : String}

theorem unskipped_of_mem_added {covers : String → Bool} {named : List String}
    (member : written ∈ (extraction.added (some covers) named).map extraction.bare) :
    skipsKey extraction covers written = false := by
  rw [map_bare_added] at member
  simpa using (List.mem_filter.mp member).2

/-- A key that is not skipped is covered neither as it is written nor as it is left behind its namespace. -/
theorem uncovered {covers : String → Bool} {binding : Option Binding} {given : Option String}
    (kept : skipsKey extraction covers written = false)
    (cut : extraction.cut? binding given written = some (namespaceName, inner)) :
    covers written = false ∧ covers inner = false := by
  obtain ⟨here, behind⟩ := Bool.or_eq_false_iff.mp kept
  refine ⟨here, ?_⟩
  unfold Extraction.cut? at cut
  split at cut
  · obtain ⟨-, rfl⟩ := Prod.mk.inj (Option.some.inj cut)
    exact here
  extract_lets parts at cut
  split at cut
  · cases cut
  obtain ⟨-, rfl⟩ := Prod.mk.inj (Option.some.inj cut)
  dsimp only [parts]
  split at behind
  next first second rest cut =>
    rw [Extraction.partsOf, cut]
    exact behind
  next other =>
    unfold Extraction.partsOf
    split
    next first second rest cut => exact absurd cut (other _ _ _ _)
    next => exact here

theorem preserves_iff {sync : Sync} {path : String} :
    (Policy.ofExtraction extraction sync).preserves namespaceName path = true ↔
      Pattern.coversKey extraction.preservePatterns path = true ∨
        ∃ mark, extraction.namespaceSeparator.mark? = some mark ∧
          Pattern.coversKey extraction.preservePatterns (namespaceName ++ mark ++ path) = true := by
  have covered (path : String) : ((Policy.ofExtraction extraction sync).preservePatterns.any fun covers => covers path) =
      Pattern.coversKey extraction.preservePatterns path := List.any_map
  have marked : (Policy.ofExtraction extraction sync).namespaceSeparator = extraction.namespaceSeparator := rfl
  rw [Policy.preserves, Bool.or_eq_true]
  simp only [covered, marked]
  cases extraction.namespaceSeparator.mark? <;> simp

/-- Whether a pattern covers the path of a key in a form that a call does not write: alone, where this is not what is left
of the written key, or behind its namespace, where the call writes something else. -/
def CoveredOtherwise (extraction : Extraction) (written inner : String) (key : Key) : Prop :=
  (key.text ≠ inner ∧ Pattern.coversKey extraction.preservePatterns key.text = true) ∨
    ∃ mark, extraction.namespaceSeparator.mark? = some mark ∧ key.namespaceName ++ mark ++ key.text ≠ written ∧
      Pattern.coversKey extraction.preservePatterns (key.namespaceName ++ mark ++ key.text) = true

theorem preserves_iff_coveredOtherwise {sync : Sync} {key : Key}
    (uncovered : Pattern.coversKey extraction.preservePatterns written = false ∧
      Pattern.coversKey extraction.preservePatterns inner = false) :
    (Policy.ofExtraction extraction sync).preserves key.namespaceName key.text = true ↔
      CoveredOtherwise extraction written inner key := by
  have other {path form : String} (absent : Pattern.coversKey extraction.preservePatterns form = false) :
      Pattern.coversKey extraction.preservePatterns path = true ↔
        path ≠ form ∧ Pattern.coversKey extraction.preservePatterns path = true := by
    refine ⟨fun covered => ⟨?_, covered⟩, And.right⟩
    rintro rfl
    exact Bool.false_ne_true (absent.symm.trans covered)
  rw [preserves_iff, CoveredOtherwise, ← other uncovered.2]
  simp only [← other uncovered.1]

end Patterns

/-- What the hints in a comment add: keys that texts of the calls refer to, and the keys that the calls write. The path of
such a key is one that is kept anyway just where a pattern covers it in a form that the call does not write. -/
theorem hinted_keys (comment : Node) (sync : Sync) :
    let skips := some (Pattern.coversKey situation.extraction.preservePatterns)
    Reports situation
      (fun key => ∃ place call, (place, call) ∈ hints situation.extraction.functions comment.text ∧
        ((∃ text, RefersBy situation call skips text ∧ key ∈ situation.extraction.referred text) ∨
          ∃ written inner, AddsItself situation call skips written inner key ∧
            ((Policy.ofExtraction situation.extraction sync).preserves key.namespaceName key.text = true ↔
              CoveredOtherwise situation.extraction written inner key)))
      (Search.reportHints comment) fun _ => True := by
  intro skips
  refine reports_extraction.bind fun extraction same => .ite (fun _ => ?_) fun _ => .done _
  subst same
  refine .forM ?_
  rintro ⟨place, call⟩ inside
  refine (reports_keysOfCall (some (hintPlace comment place))).widen fun key added => ?_
  refine ⟨place, call, inside, added.symm.imp_right ?_⟩
  rintro ⟨written, inner, added⟩
  refine ⟨written, inner, added, ?_⟩
  obtain ⟨setting, optionDefault, named, whole, reads, member, ⟨⟨given, -, cut⟩, -⟩, -⟩ := added
  exact preserves_iff_coveredOtherwise (uncovered (unskipped_of_mem_added member) cut)

section Examples

open FirstSightings

/-- A pattern without a star covers one text, and this with a line break behind it. -/
theorem starMatches_plain {pattern : List Char} (plain : '*' ∉ pattern) (text : List Char) :
    Pattern.starMatches pattern text = (text == pattern || text == pattern ++ ['\n']) := by
  induction pattern generalizing text with
  | nil => rw [Pattern.starMatches, List.nil_append]
  | cons p pattern ih =>
    rw [List.mem_cons, not_or] at plain
    have here : p ≠ '*' := Ne.symm plain.1
    cases text with
    | nil => rw [Pattern.starMatches] <;> simp [here]
    | cons c text =>
      rw [Pattern.starMatches, ih plain.2, Bool.and_or_distrib_left, Bool.beq_comm]
      · rfl
      · exact here

/-- The comment at the start of a script. -/
def commentOf (code : String) : Node := ((parse? .markup code).bind fun root => root.children.head?).getD default

/-- Settings under which one path is kept, named with its namespace. -/
def keepingOne : Extraction := { preservePatterns := ["translation:dynamic.one"] }

def keepingSearch : Situation where
  task := ⟨{ plainEnglish with extraction := keepingOne }, "src/a.tsx"⟩
  scopes := {}
  constants := []

theorem hintNames_default : hintNames ["t", "*.t"] = [.member ['.', 't'], .exact ['t']] := by
  simp [hintNames, HintName.ofFunction, List.mergeSort, List.merge, HintName.weight]
  decide

theorem coversKey_keepingOne : Pattern.coversKey keepingOne.preservePatterns = fun key =>
    key.toList == "translation:dynamic.one".toList || key.toList == "translation:dynamic.one".toList ++ ['\n'] := by
  funext key
  have plain : '*' ∉ "translation:dynamic.one".toList := by decide
  rw [Pattern.coversKey, keepingOne, List.any_cons, List.any_nil, Bool.or_false, Pattern.covers, starMatches_plain plain]

/-- A pattern that names the namespace does not keep a hint from adding a key whose path it covers. -/
theorem hint_adds_kept_key :
    Table.names (outcome (Search.reportHints (commentOf "// t('dynamic.one')")) keepingSearch.task
        keepingSearch.start).2.keys = ["translation:dynamic.one"] ∧
      (Policy.ofExtraction keepingOne {}).preserves "translation" "dynamic.one" = true := by
  have hinted (comment : Node) : outcome (Search.reportHints comment) keepingSearch.task keepingSearch.start =
      outcome ((hintsFrom [.member ['.', 't'], .exact ['t']] none 0 0 comment.text.toList).forM fun hint =>
        Search.reportCall hint.2 (some fun key => key.toList == "translation:dynamic.one".toList ||
          key.toList == "translation:dynamic.one".toList ++ ['\n']) (some (hintPlace comment hint.1)))
        keepingSearch.task keepingSearch.start := by
    rw [← coversKey_keepingOne, ← hintNames_default]
    rfl
  refine ⟨?_, ?_⟩
  · rw [hinted]
    decide +kernel
  · rw [preserves_iff, coversKey_keepingOne]
    exact .inr ⟨":", rfl, by decide +kernel⟩

end Examples

end Phrasebook.Proofs.HintedKeys
