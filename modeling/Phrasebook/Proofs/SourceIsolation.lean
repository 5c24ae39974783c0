import Mathlib.Data.List.Basic
import Phrasebook.Proofs.SearchWalks

/-! What the sources of a project are to each other. One that cannot be read or parsed is told and has no part in what
is found: the others are searched as if it was not there. Any other failure is not kept to the source it is met in, and
ends the search of all of them. -/

namespace Phrasebook.Proofs.SourceIsolation

open Catalog SearchFailures SearchSteps SearchWalks Syntax

variable {settings : Settings} {files : Files} {file : String}

def candidates (settings : Settings) (files : Files) : List String :=
  files.sources settings.extraction.input settings.extraction.ignore

section Loading

theorem loadWith_eq (plugin : Plugin) (does : LoadHook) (file code : String) (journal : Journal) :
    plugin.loadWith does file code journal =
      ((plugin.loadWith does file code {}).1, journal.followedBy (plugin.loadWith does file code {}).2) := by
  unfold Plugin.loadWith
  split
  · simp [Journal.followedBy]
  · dsimp only
    split <;> simp [Journal.followedBy, Journal.record]

theorem loadWith_warns (plugin : Plugin) (does : LoadHook) (file code : String) :
    ∀ message ∈ (plugin.loadWith does file code {}).2.messages, message.level = .warning := by
  intro message
  unfold Plugin.loadWith
  split
  · intro member
    rw [List.mem_singleton.mp member]
    rfl
  · dsimp only
    split <;> exact fun member => absurd member List.not_mem_nil

/-- What plugins make of a text does not depend on what was told before, and they tell behind it. -/
theorem loadAll_eq (plugins : List Plugin) (file code : String) (journal : Journal) :
    Plugin.loadAll plugins file code journal =
      ((Plugin.loadAll plugins file code {}).1, journal.followedBy (Plugin.loadAll plugins file code {}).2) := by
  induction plugins generalizing code journal with
  | nil => exact congrArg (Prod.mk code) (Journal.followedBy_empty journal).symm
  | cons plugin plugins ih =>
    unfold Plugin.loadAll at ih ⊢
    rw [List.foldl_cons, List.foldl_cons]
    dsimp only
    cases plugin.load with
    | none => exact ih code journal
    | some does =>
      dsimp only
      rw [loadWith_eq, ih, ih _ (plugin.loadWith does file code {}).2, Journal.followedBy_followedBy]

theorem loadAll_warns (plugins : List Plugin) (file code : String) :
    ∀ message ∈ (Plugin.loadAll plugins file code {}).2.messages, message.level = .warning := by
  induction plugins generalizing code with
  | nil => exact List.forall_mem_nil _
  | cons plugin plugins ih =>
    intro message member
    unfold Plugin.loadAll at member
    rw [List.foldl_cons] at member
    dsimp only at member
    cases loads : plugin.load with
    | none =>
      rw [loads] at member
      exact ih code message member
    | some does =>
      rw [loads] at member
      change message ∈ (Plugin.loadAll plugins file (plugin.loadWith does file code {}).1
        (plugin.loadWith does file code {}).2).2.messages at member
      rw [loadAll_eq] at member
      rcases List.mem_append.mp member with early | late
      · exact loadWith_warns plugin does file code message early
      · exact ih _ message late

end Loading

section OneSource

/-- How the search of one source ends, and what is found then. -/
def searchOne (settings : Settings) (files : Files) (file : String) (findings : Findings) :
    Except Failure Unit × Findings :=
  match files.read file with
  | .text code => searchLoaded settings file code findings
  | _ => (.error (.unreadable file), findings)

/-- Whether a source can be read, and what plugins make of its text can be parsed. -/
def canProcess (settings : Settings) (files : Files) (file : String) : Bool :=
  match files.read file with
  | .text code => (parse? (Dialect.ofPath file) (Plugin.loadAll settings.plugins file code {}).1).isSome
  | _ => false

/-- Whether something other than reading and parsing it fails in a source. -/
def breaks (settings : Settings) (files : Files) (file : String) : Bool :=
  match (searchOne settings files file {}).1 with
  | .ok () => false
  | .error failure => !failure.concernsSource

/-- What the search of a source does to findings, whatever they are. -/
structure Searched (settings : Settings) (files : Files) (file : String) (effect : Effect Unit) : Prop where
  result : ∀ findings, (searchOne settings files file findings).1 = effect.result
  keys : ∀ findings, (searchOne settings files file findings).2.keys = effect.keys findings.keys
  journal : ∀ findings,
    (searchOne settings files file findings).2.journal = findings.journal.followedBy (effect.told findings.keys)
  warns : ∀ keys, ∀ message ∈ (effect.told keys).messages, message.level = .warning

/-- A source that cannot be read is left out. -/
theorem searched_of_not_text (held : ∀ code, files.read file ≠ .text code) :
    Searched settings files file ⟨.error (.unreadable file), {}, [], id, fun _ => {}⟩ := by
  have searched (findings : Findings) :
      searchOne settings files file findings = (.error (.unreadable file), findings) := by
    unfold searchOne
    split
    next code read => exact absurd read (held code)
    next => rfl
  refine ⟨fun findings => ?_, fun findings => ?_, fun findings => ?_, fun _ => List.forall_mem_nil _⟩
  · rw [searched]
  · rw [searched]
    rfl
  · rw [searched, Journal.followedBy_empty]

/-- A source that cannot be parsed is left out, but for what its plugins tell. -/
theorem searched_of_unparsed {code : String} (held : files.read file = .text code)
    (unparsed : parse? (Dialect.ofPath file) (Plugin.loadAll settings.plugins file code {}).1 = none) :
    Searched settings files file
      ⟨.error (.unparsed file), {}, [], id, fun _ => (Plugin.loadAll settings.plugins file code {}).2⟩ := by
  have searched (findings : Findings) : searchOne settings files file findings = (.error (.unparsed file),
      ⟨findings.keys, {}, [], findings.journal.followedBy (Plugin.loadAll settings.plugins file code {}).2⟩) := by
    rw [searchOne, held]
    dsimp only
    rw [searchLoaded, loadAll_eq]
    dsimp only
    rw [searchSource, unparsed]
  refine ⟨fun findings => ?_, fun findings => ?_, fun findings => ?_, fun _ => loadAll_warns _ _ _⟩
  · rw [searched]
  · rw [searched]
    rfl
  · rw [searched]

/-- A source that can be parsed is searched by itself. -/
theorem exists_searched_of_parsed {code : String} {root : Node} (held : files.read file = .text code)
    (parsed : parse? (Dialect.ofPath file) (Plugin.loadAll settings.plugins file code {}).1 = some root) :
    ∃ effect, Searched settings files file effect ∧ Inner effect.result ∧
      ByActs settings (ShownFrom (opening settings file) root) effect.keys := by
  obtain ⟨effect, does⟩ := finds_source settings file root
  let loading : Effect Unit := ⟨.ok (), {}, [], id, fun _ => (Plugin.loadAll settings.plugins file code {}).2⟩
  have searched (findings : Findings) : searchOne settings files file findings =
      (effect.result, (effect.behind loading).after findings) := by
    rw [searchOne, held]
    dsimp only
    rw [searchLoaded, loadAll_eq]
    dsimp only
    rw [searchSource, parsed, Effect.after_behind]
    exact does.runs findings.keys _
  refine ⟨effect.behind loading, ⟨fun findings => ?_, fun findings => ?_, fun findings => ?_, ?_⟩, does.legible.inner,
    does.made⟩
  · rw [searched]
    rfl
  · rw [searched]
    rfl
  · rw [searched]
    rfl
  · exact Effect.warns_behind (fun _ => loadAll_warns _ _ _) does.warns

/-- Whatever was found before, a source is left out as a whole if it cannot be processed, and if it can be, what goes
wrong is of something inside it. -/
theorem exists_searched (settings : Settings) (files : Files) (file : String) :
    ∃ effect, Searched settings files file effect ∧
      if canProcess settings files file then Inner effect.result
      else effect.keys = id ∧ ∃ failure, effect.result = .error failure ∧ failure.concernsSource = true := by
  cases held : files.read file with
  | text code =>
    cases parsed : parse? (Dialect.ofPath file) (Plugin.loadAll settings.plugins file code {}).1 with
    | none =>
      simp only [canProcess, held, parsed]
      refine ⟨_, searched_of_unparsed held parsed, ?_⟩
      exact ⟨rfl, _, rfl, rfl⟩
    | some root =>
      simp only [canProcess, held, parsed]
      obtain ⟨effect, searched, inner, -⟩ := exists_searched_of_parsed held parsed
      exact ⟨effect, searched, inner⟩
  | missing | unreadable =>
    simp only [canProcess, held]
    refine ⟨_, searched_of_not_text fun code same => ?_, ?_⟩
    · rw [held] at same
      cases same
    · exact ⟨rfl, _, rfl, rfl⟩

/-- The keys after a source was searched. -/
def keysAfter (settings : Settings) (files : Files) (keys : KeyMap) (file : String) : KeyMap :=
  (searchOne settings files file { keys }).2.keys

theorem result_searchOne (settings : Settings) (files : Files) (file : String) (findings : Findings) :
    (searchOne settings files file findings).1 = (searchOne settings files file {}).1 := by
  obtain ⟨effect, searched, -⟩ := exists_searched settings files file
  rw [searched.result, searched.result]

theorem keys_searchOne (settings : Settings) (files : Files) (file : String) (findings : Findings) :
    (searchOne settings files file findings).2.keys = keysAfter settings files findings.keys file := by
  obtain ⟨effect, searched, -⟩ := exists_searched settings files file
  rw [keysAfter, searched.keys, searched.keys]

theorem keysAfter_of_not_canProcess (fails : canProcess settings files file = false) (keys : KeyMap) :
    keysAfter settings files keys file = keys := by
  obtain ⟨effect, searched, whole⟩ := exists_searched settings files file
  rw [fails] at whole
  rw [keysAfter, searched.keys, whole.1, id]

/-- What fails tells whether a source could be processed. -/
theorem canProcess_iff : canProcess settings files file = true ↔
    ∀ failure, (searchOne settings files file {}).1 = .error failure → failure.concernsSource = false := by
  obtain ⟨effect, searched, ends⟩ := exists_searched settings files file
  rw [searched.result]
  cases processed : canProcess settings files file with
  | true =>
    rw [processed] at ends
    exact iff_of_true rfl ends
  | false =>
    rw [processed] at ends
    obtain ⟨failure, ended, concerns⟩ := ends.2
    refine iff_of_false Bool.false_ne_true fun inner => ?_
    rw [inner failure ended] at concerns
    cases concerns

theorem canProcess_of_ok (ended : (searchOne settings files file {}).1 = .ok ()) :
    canProcess settings files file = true := by
  refine canProcess_iff.mpr fun failure failed => ?_
  rw [ended] at failed
  cases failed

theorem not_canProcess_of_error {failure : Failure} (ended : (searchOne settings files file {}).1 = .error failure)
    (concerns : failure.concernsSource = true) : canProcess settings files file = false := by
  refine Bool.eq_false_iff.mpr fun processed => ?_
  rw [canProcess_iff.mp processed failure ended] at concerns
  cases concerns

/-- A source is searched to its end, or it cannot be processed, or it breaks. -/
theorem searchOne_cases (settings : Settings) (files : Files) (file : String) :
    (canProcess settings files file = true ∧ (searchOne settings files file {}).1 = .ok ()) ∨
    (canProcess settings files file = false ∧ ∃ failure, (searchOne settings files file {}).1 = .error failure ∧
      failure.concernsSource = true) ∨
    (breaks settings files file = true ∧ ∃ failure, (searchOne settings files file {}).1 = .error failure ∧
      failure.concernsSource = false) := by
  cases ended : (searchOne settings files file {}).1 with
  | ok value => exact .inl ⟨canProcess_of_ok ended, rfl⟩
  | error failure =>
    cases concerns : failure.concernsSource with
    | true => exact .inr (.inl ⟨not_canProcess_of_error ended concerns, failure, rfl, concerns⟩)
    | false =>
      refine .inr (.inr ⟨?_, failure, rfl, concerns⟩)
      rw [breaks, ended]
      dsimp only
      rw [concerns]
      rfl

end OneSource

section AllSources

variable {rest : List String} {findings later : Findings} {failure : Failure}

theorem searchAll_cons (settings : Settings) (files : Files) (file : String) (rest : List String)
    (findings : Findings) : searchAll settings files (file :: rest) findings =
      match searchOne settings files file findings with
      | (.ok (), later) => searchAll settings files rest later
      | (.error failure, later) =>
        if failure.concernsSource then
          ((searchAll settings files rest (later.note .error failure.message)).1.map (file :: ·),
            (searchAll settings files rest (later.note .error failure.message)).2)
        else (.error failure, later) := by
  rw [searchAll]
  unfold searchOne
  cases files.read file with
  | text code =>
    dsimp only
    rcases searchLoaded settings file code findings with ⟨failure | value, later⟩ <;> rfl
  | missing | unreadable => rfl

/-- Sources in which nothing else fails are searched one behind the other, and those that cannot be processed are
passed over. -/
theorem searchAll_of_contained {sources : List String}
    (contained : ∀ file ∈ sources, breaks settings files file = false) (findings : Findings) :
    (searchAll settings files sources findings).1 =
        .ok (sources.filter fun file => !canProcess settings files file) ∧
      (searchAll settings files sources findings).2.keys =
        (sources.filter (canProcess settings files)).foldl (keysAfter settings files) findings.keys := by
  induction sources generalizing findings with
  | nil => exact ⟨rfl, rfl⟩
  | cons file rest ih =>
    have rest_contained (other : String) (member : other ∈ rest) : breaks settings files other = false :=
      contained other (List.mem_cons_of_mem _ member)
    have result := result_searchOne settings files file findings
    have keys := keys_searchOne settings files file findings
    rw [searchAll_cons]
    rcases searched : searchOne settings files file findings with ⟨answer, later⟩
    rw [searched] at result keys
    rcases searchOne_cases settings files file with ⟨processed, ended⟩ | ⟨fails, failure, ended, concerns⟩ | ⟨broken, -⟩
    · rw [ended] at result
      dsimp only at result keys
      rw [result, List.filter_cons_of_neg (by simp [processed]), List.filter_cons_of_pos processed, List.foldl_cons,
        ← keys]
      exact ih rest_contained later
    · rw [ended] at result
      dsimp only at result keys
      rw [keysAfter_of_not_canProcess fails] at keys
      rw [result, List.filter_cons_of_pos (by simp [fails]), List.filter_cons_of_neg (by simp [fails]), ← keys]
      dsimp only
      rw [if_pos concerns, (ih rest_contained _).1, (ih rest_contained _).2]
      exact ⟨rfl, rfl⟩
    · rw [contained file List.mem_cons_self] at broken
      cases broken

/-- A source that breaks ends the search of all. -/
theorem exists_error_of_breaks {sources : List String} (member : file ∈ sources)
    (broken : breaks settings files file = true) (findings : Findings) :
    ∃ failure, (searchAll settings files sources findings).1 = .error failure := by
  induction sources generalizing findings with
  | nil => cases member
  | cons first rest ih =>
    have result := result_searchOne settings files first findings
    rw [searchAll_cons]
    rcases searched : searchOne settings files first findings with ⟨answer, later⟩
    rw [searched] at result
    rcases List.mem_cons.mp member with rfl | behind
    · unfold breaks at broken
      rw [← result] at broken
      cases answer with
      | ok value => cases broken
      | error failure =>
        dsimp only at broken ⊢
        rw [Bool.not_eq_true'] at broken
        rw [if_neg (Bool.eq_false_iff.mp broken)]
        exact ⟨failure, rfl⟩
    · cases answer with
      | ok value => exact ih behind later
      | error failure =>
        dsimp only
        split
        · obtain ⟨last, ended⟩ := ih behind (later.note .error failure.message)
          rw [ended]
          exact ⟨last, rfl⟩
        · exact ⟨failure, rfl⟩

end AllSources

section Ending

theorem keys_endAll (plugins : List Plugin) (name : String) (keys : KeyMap) (journal other : Journal) :
    (Plugin.endAll plugins name keys journal).1 = (Plugin.endAll plugins name keys other).1 := by
  induction plugins generalizing keys journal other with
  | nil => rfl
  | cons plugin plugins ih =>
    unfold Plugin.endAll at ih ⊢
    rw [List.foldl_cons, List.foldl_cons]
    dsimp only
    cases plugin.atEnd with
    | none => exact ih keys journal other
    | some does =>
      dsimp only
      cases does.failure with
      | some reason => exact ih keys _ _
      | none =>
        dsimp only
        rcases KeyStep.run name does.steps keys with ⟨later, failure⟩
        cases failure with
        | none => exact ih later _ _
        | some reason => exact ih later _ _

/-- The keys of a search do not depend on what was told before its end. -/
theorem keys_endSearch (settings : Settings) (findings : Findings) :
    (endSearch settings findings).keys = (endSearch settings { keys := findings.keys }).keys :=
  keys_endAll _ _ _ _ _

end Ending

/-- The keys that a search over sources finds, each of them read from the files. -/
def keysOf (settings : Settings) (files : Files) (sources : List String) : KeyMap :=
  (endSearch settings { keys := sources.foldl (keysAfter settings files) [] }).keys

/-- What is known before the first source is searched. -/
def scanning (settings : Settings) (files : Files) (journal : Journal) : Findings where
  journal := journal.note .info ("Scanning " ++ toString (candidates settings files).length ++ " source files")

theorem findKeys_eq (settings : Settings) (files : Files) (journal : Journal) : findKeys settings files journal =
    match searchAll settings files (candidates settings files) (scanning settings files journal) with
    | (.error failure, findings) => (.error failure, findings.journal)
    | (.ok failed, findings) => (.ok ⟨(endSearch settings findings).keys, candidates settings files, failed⟩,
        (endSearch settings findings).journal) := by
  unfold findKeys scanning candidates
  dsimp only
  rcases searchAll settings files _ _ with ⟨failure | failed, findings⟩ <;> rfl

/-- Where no source breaks, a result lists the sources that cannot be processed and has the keys of all others. -/
theorem findKeys_of_contained (contained : ∀ file ∈ candidates settings files, breaks settings files file = false)
    (journal : Journal) : (findKeys settings files journal).1 =
      .ok ⟨keysOf settings files ((candidates settings files).filter (canProcess settings files)),
        candidates settings files, (candidates settings files).filter fun file => !canProcess settings files file⟩ := by
  have searched := searchAll_of_contained contained (scanning settings files journal)
  rw [findKeys_eq]
  rcases ended : searchAll settings files (candidates settings files) (scanning settings files journal) with
    ⟨result, findings⟩
  rw [ended] at searched
  obtain ⟨rfl, keys⟩ := searched
  dsimp only
  rw [keysOf, keys_endSearch, keys]
  rfl

theorem exists_error_findKeys (member : file ∈ candidates settings files) (broken : breaks settings files file = true)
    (journal : Journal) : ∃ failure, (findKeys settings files journal).1 = .error failure := by
  obtain ⟨failure, ended⟩ := exists_error_of_breaks member broken (scanning settings files journal)
  rw [findKeys_eq]
  rcases searched : searchAll settings files (candidates settings files) (scanning settings files journal) with
    ⟨result, findings⟩
  rw [searched] at ended
  obtain rfl : result = .error failure := ended
  exact ⟨failure, rfl⟩

/-- No source breaks when there is a result. -/
theorem contained_of_findKeys {journal : Journal} {found : ProjectKeys}
    (ended : (findKeys settings files journal).1 = .ok found) :
    ∀ file ∈ candidates settings files, breaks settings files file = false := by
  intro file member
  refine Bool.eq_false_iff.mpr fun broken => ?_
  obtain ⟨failure, failed⟩ := exists_error_findKeys member broken journal
  rw [ended] at failed
  cases failed

theorem searchOne_congr {others : Files} (same : others.read file = files.read file) :
    searchOne settings others file = searchOne settings files file := by
  funext findings
  unfold searchOne
  rw [same]

theorem canProcess_congr {others : Files} (same : others.read file = files.read file) :
    canProcess settings others file = canProcess settings files file := by
  unfold canProcess
  rw [same]

theorem keysOf_congr {others : Files} {sources : List String}
    (same : ∀ file ∈ sources, others.read file = files.read file) :
    keysOf settings others sources = keysOf settings files sources := by
  unfold keysOf
  rw [List.foldl_ext _ _ _ fun keys file member => ?_]
  unfold keysAfter
  rw [searchOne_congr (same file member)]

section Examples

def plainSettings : Settings where
  locales := ["en"]
  extraction :=
    { input := ["src/*.ts"], output := .template "locales/\x7b\x7blng\x7d\x7d.json", primaryLanguage := some "en" }

/-- A project of two sources, the second of which uses one key. -/
def besideKey (code : String) : Files where
  files := [(["src", "a.ts"], .text code), (["src", "b.ts"], .text "t('b')")]

/-- Files at the places that the patterns of the settings lead to are the candidates, when they are in order. -/
theorem candidates_of_matching {files : Files} {places : List Place} (led : files.matching "src/*.ts" = places)
    (held : places.filter files.isFile = places)
    (kept : (places.map Place.path).filter (fun path => !Pattern.ignores alwaysIgnored path) = places.map Place.path)
    (apart : (places.map Place.path).eraseDups = places.map Place.path)
    (sorted : (places.map Place.path).Pairwise fun first second => first ≤ second) :
    candidates plainSettings files = places.map Place.path := by
  have ignored : (alwaysIgnored ++ []).flatMap Pattern.expandBraces = alwaysIgnored := by cbv
  have pattern : Pattern.expandBraces "src/*.ts" = ["src/*.ts"] := by cbv
  have plain : (Text.startsWith "/" "src/*.ts" || Text.endsWith "/" "src/*.ts") = false := by cbv
  simp only [candidates, Files.sources, plainSettings, ignored, List.flatMap_singleton, pattern, plain, led, held,
    Bool.false_eq_true, if_false, kept, apart]
  exact List.mergeSort_of_pairwise (sorted.imp decide_eq_true)

theorem candidates_besideKey (code : String) :
    candidates plainSettings (besideKey code) = ["src/a.ts", "src/b.ts"] := by
  have led : (besideKey code).matching "src/*.ts" = [["src", "a.ts"], ["src", "b.ts"]] := by cbv
  refine candidates_of_matching led ?_ ?_ ?_ (List.pairwise_pair.mpr ?_)
  · rfl
  · cbv
  · cbv
  · decide

theorem candidates_remove :
    candidates plainSettings ((besideKey "(").remove "src/a.ts") = ["src/b.ts"] := by
  have led : ((besideKey "(").remove "src/a.ts").matching "src/*.ts" = [["src", "b.ts"]] := by cbv
  refine candidates_of_matching led ?_ ?_ ?_ ?_
  · cbv
  · cbv
  · cbv
  · simp

/-- The second source is searched to its end, whatever the first one is. -/
theorem ends_second (code : String) : (searchOne plainSettings (besideKey code) "src/b.ts" {}).1 = .ok () := by
  have same : (besideKey code).read "src/b.ts" = (besideKey "").read "src/b.ts" := by cbv
  rw [searchOne_congr same]
  decide +kernel

/-- A call whose key is written with the number behind the last character. -/
def escapedCall : String := "t('\\u\x7b110000\x7d')"

end Examples

end Phrasebook.Proofs.SourceIsolation
