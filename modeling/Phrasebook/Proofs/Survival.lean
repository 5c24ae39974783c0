import Phrasebook.Proofs.JoinedLeaves
import Phrasebook.Proofs.LeafValues
import Phrasebook.Proofs.Placement

/-! Texts that outlive changes to other keys. A merge keeps what the catalog holds at the places of its tree, so a text
is met again where the place of its path is the one it had. Other keys move a path only by becoming, or by ceasing
to be, a text that the path lies below. -/

namespace Phrasebook.Proofs.Survival

open Built Catalog JoinedLeaves LeafValues Placement Segments

variable {settings : Settings} {namespaceName locale : String} {keys before after : List Key} {path : String}

/-- Whether keys ask for a text under a path. -/
def Asked (settings : Settings) (namespaceName locale : String) (keys : List Key) (path : String) : Prop :=
  ∃ key ∈ keys, key.namespaceName = namespaceName ∧ path ∈ Table.names (leavesOf settings locale key)

/-- Whether a path lies below another one under which keys ask for a text. -/
def Below (settings : Settings) (namespaceName locale : String) (keys : List Key) (path : String) : Prop :=
  ∃ mark, settings.extraction.keySeparator.mark? = some mark ∧
    ∃ above, Asked settings namespaceName locale keys above ∧ Above mark above path

/-- Whether a tree has the text of a path at a place. -/
def HasPlace (built : Built) (path : String) (place : List String) : Prop :=
  ∃ leaf, Tree.leafAt? place (.branch built.entries) = some leaf ∧ leaf.key = path

theorem mem_names_leavesIn :
    path ∈ Table.names (leavesIn settings namespaceName locale keys) ↔ Asked settings namespaceName locale keys path := by
  simp [leavesIn, mem_names_leaves, Asked, and_assoc]

theorem isOpaque_of_mem_leavesIn (plain : ∀ key ∈ keys, key.isOpaque = false) {entry : String × Leaf}
    (member : entry ∈ leavesIn settings namespaceName locale keys) : entry.2.isOpaque = false :=
  isOpaque_of_mem_leaves (fun key inside => plain key (List.mem_filter.mp inside).1) member

theorem isBelowText_leavesIn (plain : ∀ key ∈ keys, key.isOpaque = false) {mark : String}
    (marked : settings.extraction.keySeparator.mark? = some mark) :
    isBelowText mark (leavesIn settings namespaceName locale keys) path = true ↔
      Below settings namespaceName locale keys path := by
  rw [isBelowText_iff (mark_ne_empty marked) nodup_names_leavesIn]
  constructor
  · rintro ⟨entry, member, _, above⟩
    exact ⟨mark, marked, entry.1, mem_names_leavesIn.mp (List.mem_map_of_mem member), above⟩
  · rintro ⟨other, otherMarked, above, asked, isAbove⟩
    obtain rfl : mark = other := Option.some.inj (marked.symm.trans otherMarked)
    obtain ⟨entry, member, rfl⟩ := List.mem_map.mp (mem_names_leavesIn.mpr asked)
    exact ⟨entry, member, isOpaque_of_mem_leavesIn plain member, isAbove⟩

/-- The tree of keys has the paths that they ask for, each at one place. -/
theorem hasPlace_iff (plain : ∀ key ∈ keys, key.isOpaque = false) (place : List String) :
    HasPlace (ofKeys settings keys namespaceName locale) path place ↔
      Asked settings namespaceName locale keys path ∧
        place = placeIn settings.extraction.keySeparator (leavesIn settings namespaceName locale keys) path := by
  have held (leaf : Leaf) := leafAt?_entriesOf settings.extraction.keySeparator
    (nodup_names_leavesIn : (Table.names (leavesIn settings namespaceName locale keys)).Nodup) place leaf
  constructor
  · rintro ⟨leaf, found, named⟩
    obtain ⟨other, member, _, here⟩ := (held leaf).mp found
    obtain rfl : other = path := (key_of_mem_leaves member).symm.trans named
    exact ⟨mem_names_leavesIn.mp (List.mem_map_of_mem member), here⟩
  · rintro ⟨asked, here⟩
    obtain ⟨⟨_, leaf⟩, member, rfl⟩ := List.mem_map.mp (mem_names_leavesIn.mpr asked)
    refine ⟨leaf, (held leaf).mpr ⟨_, member, ?_, here⟩, key_of_mem_leaves member⟩
    intro mark _ leftOut
    exact absurd leftOut.1 (by simpa using isOpaque_of_mem_leavesIn plain member)

/-- Keys give a path the same place when it lies below one of their texts for both or for neither. -/
theorem placeIn_eq_iff (plainBefore : ∀ key ∈ before, key.isOpaque = false)
    (plainAfter : ∀ key ∈ after, key.isOpaque = false) :
    placeIn settings.extraction.keySeparator (leavesIn settings namespaceName locale before) path =
        placeIn settings.extraction.keySeparator (leavesIn settings namespaceName locale after) path ↔
      (Below settings namespaceName locale before path ↔ Below settings namespaceName locale after path) := by
  cases marked : settings.extraction.keySeparator.mark? with
  | none => simp [placeIn, Below, marked]
  | some mark =>
    rw [← isBelowText_leavesIn plainBefore marked, ← isBelowText_leavesIn plainAfter marked, ← Bool.eq_iff_iff,
      ← place_eq_place_iff (mark_ne_empty marked)]
    simp only [placeIn, marked]

theorem at?_reconcile {built : Built} {existing : Entries} {isPrimary : Bool} {policy : Policy}
    (noPrimary : policy.syncPrimary = false) (noAll : policy.syncAll = false) {place : List String}
    (found : HasPlace built path place) {value : Value} (isText : value.isObject = false)
    (held : (Value.object existing).at? place = some value) :
    (Value.object (reconcile built (some (.object existing)) locale isPrimary policy)).at? place = some value := by
  obtain ⟨leaf, found, _⟩ := found
  rcases at?_content ⟨built, locale, isPrimary, policy⟩ found existing with ⟨path, made⟩ | ⟨_, kept⟩
  · have keeps : Merge.keepsText ⟨built, locale, isPrimary, policy⟩ leaf = true := by
      simp [Merge.keepsText, noPrimary, noAll]
    rw [held, Merge.leafValue_eq_getD keeps, Merge.textAt?_some, isText] at made
    exact made
  · exact kept.trans held

/-- A path that keys asked for and still ask for has one place in each of the two trees, and these are the same just
when it lies below a text of both or of neither. A text found at a place that stayed the same is found there again. -/
theorem text_survives (settings : Settings) (namespaceName locale : String) (before after : List Key)
    (plainBefore : ∀ key ∈ before, key.isOpaque = false) (plainAfter : ∀ key ∈ after, key.isOpaque = false)
    (policy : Policy) (noPrimary : policy.syncPrimary = false) (noAll : policy.syncAll = false) (isPrimary : Bool)
    (existing : Entries) (path : String) (askedBefore : Asked settings namespaceName locale before path)
    (askedAfter : Asked settings namespaceName locale after path) :
    ∃ first second,
      (∀ place, HasPlace (ofKeys settings before namespaceName locale) path place ↔ place = first) ∧
      (∀ place, HasPlace (ofKeys settings after namespaceName locale) path place ↔ place = second) ∧
      (first = second ↔
        (Below settings namespaceName locale before path ↔ Below settings namespaceName locale after path)) ∧
      (first = second → ∀ value : Value, value.isObject = false →
        (Value.object existing).at? first = some value →
        (Value.object (reconcile (ofKeys settings after namespaceName locale) (some (.object existing)) locale isPrimary
          policy)).at? second = some value) := by
  refine ⟨_, _, fun place => (hasPlace_iff plainBefore place).trans (and_iff_right askedBefore),
    fun place => (hasPlace_iff plainAfter place).trans (and_iff_right askedAfter),
    placeIn_eq_iff plainBefore plainAfter, ?_⟩
  intro same value isText held
  rw [same] at held
  exact at?_reconcile noPrimary noAll ((hasPlace_iff plainAfter _).mpr ⟨askedAfter, rfl⟩) isText held

def english : Settings := { locales := ["en"], extraction := { primaryLanguage := some "en" } }

def plainKey (text : String) : Key := { text, namespaceName := "translation" }

theorem asked_plainKey (text : String) (others : List Key) :
    Asked english "translation" "en" (plainKey text :: others) text :=
  ⟨plainKey text, List.mem_cons_self, rfl, List.mem_singleton_self text⟩

theorem text_survives_beside_a_new_key :
    (Value.object (reconcile (ofKeys english [plainKey "a.b", plainKey "c"] "translation" "en")
      (some (.object [("a", .object [("b", .text "X")])])) "en" true {})).at? ["a", "b"] = some (.text "X") := by
  obtain ⟨first, second, atFirst, atSecond, _, stays⟩ := text_survives english "translation" "en" [plainKey "a.b"]
    [plainKey "a.b", plainKey "c"] (by decide) (by decide) {} rfl rfl true [("a", .object [("b", .text "X")])] "a.b"
    (asked_plainKey "a.b" []) (asked_plainKey "a.b" [plainKey "c"])
  have beforePlace := (atFirst ["a", "b"]).mp ⟨⟨"a.b", "a.b", false, false⟩, by decide +kernel, rfl⟩
  have afterPlace := (atSecond ["a", "b"]).mp ⟨⟨"a.b", "a.b", false, false⟩, by decide +kernel, rfl⟩
  subst beforePlace afterPlace
  exact stays rfl (.text "X") rfl rfl

/-- The text of a path that came to lie below another text is not taken along to its new place. -/
theorem text_of_a_moved_path_is_lost :
    ¬ ∀ (settings : Settings) (namespaceName locale : String) (before after : List Key),
      (∀ key ∈ before, key.isOpaque = false) → (∀ key ∈ after, key.isOpaque = false) →
      ∀ policy : Policy, policy.syncPrimary = false → policy.syncAll = false → ∀ (isPrimary : Bool) (existing : Entries),
      (∀ path place, HasPlace (ofKeys settings before namespaceName locale) path place →
        ∃ value, (Value.object existing).at? place = some value ∧ value.isObject = false) →
      ∀ path, Asked settings namespaceName locale before path → Asked settings namespaceName locale after path →
      ∀ first second, HasPlace (ofKeys settings before namespaceName locale) path first →
        HasPlace (ofKeys settings after namespaceName locale) path second →
        (Value.object (reconcile (ofKeys settings after namespaceName locale) (some (.object existing)) locale isPrimary
          policy)).at? second = (Value.object existing).at? first := by
  intro claim
  have nested : HasPlace (ofKeys english [plainKey "a.b"] "translation" "en") "a.b" ["a", "b"] :=
    ⟨⟨"a.b", "a.b", false, false⟩, by decide +kernel, rfl⟩
  have flat : Tree.leafAt? ["a.b"] (.branch (ofKeys english [plainKey "a.b", plainKey "a"] "translation" "en").entries) =
      some ⟨"a.b", "a.b", false, false⟩ := by decide +kernel
  have kept := claim english "translation" "en" [plainKey "a.b"] [plainKey "a.b", plainKey "a"] (by decide) (by decide)
    {} rfl rfl true [("a", .object [("b", .text "X")])] ?known "a.b" (asked_plainKey "a.b" [])
    (asked_plainKey "a.b" [plainKey "a"]) ["a", "b"] ["a.b"] nested ⟨_, flat, rfl⟩
  · -- the catalog has nothing at the new place, so the text found there is the one that the key brings
    rcases at?_content ⟨ofKeys english [plainKey "a.b", plainKey "a"] "translation" "en", "en", true, {}⟩ flat
      [("a", .object [("b", .text "X")])] with ⟨whole, made⟩ | ⟨_, unchanged⟩
    · have same : "a.b" = "X" := Value.text.inj (Option.some.inj (made.symm.trans kept))
      exact absurd same (by decide)
    · cases unchanged.symm.trans kept
  case known =>
    intro path place held
    obtain ⟨⟨key, member, _, asks⟩, here⟩ := (hasPlace_iff (by decide) place).mp held
    obtain rfl := List.mem_singleton.mp member
    obtain rfl := List.mem_singleton.mp asks
    obtain rfl : place = ["a", "b"] := here.trans ((hasPlace_iff (by decide) _).mp nested).2.symm
    exact ⟨.text "X", rfl, rfl⟩

end Phrasebook.Proofs.Survival
