import Phrasebook.Proofs.ScriptStatements

/-! Catalogs that are written as scripts and read again. -/

namespace Phrasebook.Catalog.Value

open Decimal

/-- A value whose numbers are all finite. -/
inductive Finite : Value → Prop
  | null : Finite .null
  | truth (value : Bool) : Finite (.truth value)
  | whole (value : ℤ) : Finite (.whole value)
  | real (negative : Bool) (significand : ℕ) (exponent : ℤ) : Finite (.real (.finite negative significand exponent))
  | text (value : String) : Finite (.text value)
  | list {items : List Value} (inside : ∀ item ∈ items, Finite item) : Finite (.list items)
  | object {entries : Entries} (inside : ∀ entry ∈ entries, Finite entry.2) : Finite (.object entries)

theorem Finite.inside {entries : Entries} : (Value.object entries).Finite → ∀ entry ∈ entries, entry.2.Finite
  | .object inside => inside

end Phrasebook.Catalog.Value

namespace Phrasebook.Proofs.ScriptCatalogs

open Catalog Decimal Value ParseSteps ScriptContainers ScriptExpressions ScriptNodes ScriptStatements ScriptTokens ScriptValues
open Syntax Parse

variable {total depth : ℕ} {text : List Char} {entries : Entries}

section Programs

theorem reads_refresh : Reads total refresh text text fun _ => True :=
  fun _ ready => ⟨(), _, rfl, ⟨ready.cursor, ready.comments, ready.limit⟩, trivial⟩

theorem reads_forget {reading : Reading} (stands : Ready total text reading) :
    Reads total (set { reading with comments := [] } : Parse PUnit) text text fun _ => True :=
  fun _ _ => ⟨⟨⟩, _, rfl, ⟨stands.cursor, rfl, stands.limit⟩, trivial⟩

/-- At the end of a text no statement follows. -/
theorem fails_end (depth : ℕ) : Fails total (goal depth .statement) ['\n'] := by
  have nothing : Skips [] [] := .here (by rintro _ ⟨⟩) rfl
  have skips : Skips ['\n'] [] := .separator rfl nothing
  cases depth with
  | zero => exact fails_failure
  | succ depth =>
    have noPrimary (rules : Rules) : Fails total (primary rules true false) [] := by
      refine (reads_peek nothing).bindFails fun cursor stands => (reads_wordAt wordAt_nil stands).thenFails ?_
      rw [stands.rest]
      exact fails_failure
    have noExpression : Fails total (goal depth (.expression true false)) [] :=
      fails_expression nothing wordAt_nil (.inl rfl) noPrimary depth
    have noStatement : Fails total (expressionStatement (goal depth)) ['\n'] :=
      fails_node skips _ (Fails.bind ((reads_begin nothing).bindFails fun _ _ => noExpression.bind _) _)
    exact (reads_nextSign skips).thenFails ((reads_nextWord skips wordAt_nil).thenFails noStatement)

/-- Where a text does not start with a hash, no line names an interpreter. -/
theorem fails_interpreter (noHash : text.head? ≠ some '#') : Fails total (do
    let rest := (← get).cursor.rest
    if "#!".toList.isPrefixOf rest then
      raw .hashBangLine (rest.takeWhile fun c => c != '\n').length
    else failure) text := by
  have noInterpreter : "#!".toList.isPrefixOf text = false := by
    cases text with
    | nil => rfl
    | cons c more =>
      have other : '#' ≠ c := fun same => noHash (same ▸ rfl)
      show (('#' == c) && _) = false
      rw [beq_eq_false_iff_ne.mpr other, Bool.false_and]
  refine fails_get fun reading ready => ?_
  dsimp only
  rw [ready.cursor.rest, noInterpreter, if_neg Bool.false_ne_true]
  exact fails_failure

/-- A script of one statement and a line's end. -/
theorem reads_program (skips : Skips text text) (noMark : text.head? ≠ some '\ufeff') (noHash : text.head? ≠ some '#')
    (reads : Reads total (goal depth .statement) text ['\n'] (Finds entries)) :
    Reads total (program depth) text [] (Finds entries) := by
  have statements : Reads total (many (goal depth .statement)) text ['\n'] fun nodes =>
      ∃ node, Finds entries node ∧ nodes = [node] := by
    refine reads_many fun limit enough => ?_
    obtain ⟨limit, rfl⟩ := Nat.exists_eq_succ_of_ne_zero (Nat.ne_zero_of_lt enough)
    refine reads_repeatUpTo_cons reads fun node finds => ?_
    refine (reads_repeatUpTo_none (fails_end depth) limit).weaken ?_
    rintro _ rfl
    exact ⟨node, finds, rfl⟩
  have ended : Skips ['\n'] [] := .separator rfl (.here (by rintro _ ⟨⟩) rfl)
  unfold program
  refine Reads.get fun first ready => ?_
  dsimp only
  rw [ready.cursor.rest, if_neg (by simpa using noMark)]
  refine (fails_interpreter noHash).optional.andThen (reads_refresh.bind fun _ _ => ?_)
  refine (reads_peek skips).bind fun begun stands => statements.bind ?_
  rintro _ ⟨node, finds, rfl⟩
  refine (reads_begin ended).bind fun _ _ => Reads.get fun last done => ?_
  rw [done.cursor.rest]
  refine (reads_forget done).bind fun _ _ => .pure _ ?_
  rw [done.comments]
  exact finds_above (by decide) finds none

end Programs

section Reading

theorem readScript_of_reads (path : String) {text : String} (reads : Reads text.toList.length
    (program (8 * (text.toList.length + 1) + 64)) text.toList [] (Finds entries)) :
    readScript path text = .ok (.object (Table.ofList (legibleEntries entries))) := by
  obtain ⟨root, later, ran, -, finds⟩ :=
    reads ⟨Dialect.ofPath path, text.toList.length + 1, ⟨text.toList, .first⟩, [], true⟩
      ⟨⟨rfl, Nat.zero_add _⟩, rfl, Nat.lt_succ_self _⟩
  obtain ⟨object, found, inside⟩ := finds.found root.size (Nat.le_refl _)
  have parsed : parse? (Dialect.ofPath path) text = some root := by
    unfold parse?
    dsimp only
    rw [ran]
    dsimp only
    rw [finds.settled, if_pos rfl]
  rw [readScript, parsed]
  dsimp only
  rw [found]
  dsimp only
  rw [inside]
  rfl

variable {format : Format} (script : format ≠ .json) {indentation : Indentation} (blank : indentation.Blank)

theorem toList_write (format : Format) (indentation : Indentation) (entries : Entries) :
    (format.write indentation (.object entries)).toList =
      format.frame.1.toList ++ (objectText indentation.unit entries ++ format.frame.2.toList) := by
  rw [Format.write, String.toList_append, String.toList_append, List.append_assoc]
  rfl

theorem starts_write (script : format ≠ .json) (indentation : Indentation) (entries : Entries) :
    ∃ c more, (format.write indentation (.object entries)).toList = c :: more ∧ (c = 'e' ∨ c = 'm') := by
  rw [toList_write]
  cases format with
  | json => exact absurd rfl script
  | js => exact ⟨'e', _, rfl, .inl rfl⟩
  | jsModule => exact ⟨'e', _, rfl, .inl rfl⟩
  | jsCommon => exact ⟨'m', _, rfl, .inr rfl⟩
  | ts => exact ⟨'e', _, rfl, .inl rfl⟩

include blank

theorem separate_unit : ∀ c ∈ indentation.unit.toList, isSeparator c = true := by
  intro c member
  rcases SettledCatalogs.blank_unit blank c member with rfl | rfl <;> rfl

include script

theorem reads_statement (each : ∀ entry ∈ entries, ReadsAsScript indentation.unit entry.2) {steps : ℕ}
    (enough : (renderAt (.lines indentation.unit) 0 (.object entries)).length ≤ steps) :
    Reads total (goal (steps + 3) .statement) (format.write indentation (.object entries)).toList ['\n']
      (Finds entries) := by
  have separate := separate_unit blank
  have more : (renderAt (.lines indentation.unit) 0 (.object entries)).length ≤ steps + 1 := Nat.le_succ_of_le enough
  rw [toList_write]
  have plain : Reads total (goal (steps + 3) .statement)
      ("export default ".toList ++ (objectText indentation.unit entries ++ ";\n".toList)) ['\n'] (Finds entries) :=
    reads_exportStatement (starts_objectText _) (reads_objectExpression separate each more _)
      fun _ isObject => finds_object isObject (some .value)
  cases format with
  | json => exact absurd rfl script
  | js => exact plain
  | jsModule => exact plain
  | jsCommon => exact reads_moduleStatement separate each enough _
  | ts =>
    refine reads_exportStatement (starts_objectText _) (reads_constantExpression separate each more _) ?_
    rintro _ ⟨text, start, child, isObject, rfl⟩
    have inside := finds_object isObject none
    obtain ⟨shown, place, nodes, each, rfl⟩ := isObject
    have outer : Kind.asExpression ∈ outerKinds := by decide
    exact finds_above outer inside (some .value)

theorem readScript_write (rounded : (Value.object entries).Rounded) (path : String) :
    readScript path (format.write indentation (.object entries)) =
      .ok (.object (Table.ofList (legibleEntries entries))) := by
  have separate : ∀ c ∈ indentation.unit.toList, isSeparator c = true := separate_unit blank
  have each : ∀ entry ∈ entries, ReadsAsScript indentation.unit entry.2 :=
    fun entry member => readsAsScript separate (rounded.inside entry member)
  -- Every value nests fewer rules than its text has characters; the rest of the budget is for the statement around it.
  have enough : (renderAt (.lines indentation.unit) 0 (.object entries)).length ≤
      8 * ((format.write indentation (.object entries)).toList.length + 1) + 61 := by
    simp only [toList_write, objectText, List.length_append, String.length_toList]
    omega
  obtain ⟨c, more, starts, letter⟩ := starts_write script indentation entries
  have noMarks : c ≠ '\ufeff' ∧ c ≠ '#' ∧ isWordChar c = true := by
    rcases letter with rfl | rfl <;> decide
  refine readScript_of_reads path (reads_program ?_ ?_ ?_ (reads_statement script blank each enough))
  · rw [starts]
    exact skips_wordChar noMarks.2.2 more
  · rw [starts]
    exact fun same => noMarks.1 (Option.some.inj same)
  · rw [starts]
    exact fun same => noMarks.2.1 (Option.some.inj same)

end Reading

section RoundTrip

theorem legibleItems_eq_self {items : List Value} (each : ∀ item ∈ items, legible? item = some item) :
    legibleItems items = items := by
  induction items with
  | nil => rfl
  | cons item items ih =>
    rw [legibleItems, each item List.mem_cons_self]
    exact congrArg (item :: ·) (ih fun other member => each other (List.mem_cons_of_mem _ member))

theorem legibleEntries_eq_self {entries : Entries} (each : ∀ entry ∈ entries, legible? entry.2 = some entry.2) :
    legibleEntries entries = entries := by
  induction entries with
  | nil => rfl
  | cons entry entries ih =>
    obtain ⟨name, value⟩ := entry
    have here : legible? value = some value := each _ List.mem_cons_self
    rw [legibleEntries, here]
    exact congrArg ((name, value) :: ·) (ih fun other member => each other (List.mem_cons_of_mem _ member))

/-- A script holds every finite value that a text can stand for. -/
theorem legible?_eq_some {value : Value} (storable : value.Storable) : value.Finite → legible? value = some value := by
  induction storable with
  | null => exact fun _ => rfl
  | truth value => exact fun _ => rfl
  | whole few =>
    intro _
    rw [legible?, if_neg (Nat.not_lt.mpr few)]
  | real canonical =>
    rintro ⟨⟩
    rfl
  | text value => exact fun _ => rfl
  | @list items _ ih =>
    rintro ⟨⟩
    next finite => rw [legible?, legibleItems_eq_self fun item member => ih item member (finite item member)]
  | @object entries names _ ih =>
    intro finite
    rw [legible?, legibleEntries_eq_self fun entry member => ih entry member (finite.inside entry member),
      Table.ofList_eq_self names]

/-- What has no name of a JSON file is read as a script. -/
theorem read_eq_readScript {format : Format} (script : format ≠ .json) {path : String}
    (noJson : Text.endsWith ".json" path = false) (text : String) : format.read path text = readScript path text := by
  have noText : ¬ (decide (format = .json) || Text.endsWith ".json" path) = true := by
    simp [script, noJson]
  rw [Format.read, if_neg noText]

/-- A catalog with a quote in a name, an escape in a text, and a list of numbers. -/
def greetings : Entries :=
  [("say \"hello\"", .text "one\\two\nthree\x00"),
    ("numbers", .list [.whole (-3), .real (.finite true 4503599627370496 (-53)), .null])]

theorem lt_length_digitsOf {count number : ℕ} (some : 0 < count) (large : 10 ^ count ≤ number) :
    count < (digitsOf number).length := by
  by_contra few
  have small := (Nat.length_toDigits_le_iff (by decide) some).mp (Nat.not_lt.mp few)
  exact absurd small (Nat.not_lt.mpr large)

/-- A whole number of more digits than are read is passed over, as if it had not been written. -/
theorem read_write_large {number : ℤ} (many : 4300 < (digitsOf number.natAbs).length) (name : String) {path : String}
    (noJson : Text.endsWith ".json" path = false) :
    Format.ts.read path (Format.ts.write (.spaces 2) (.object [(name, .whole number)])) = .ok (.object []) := by
  have rounded : (Value.object [(name, .whole number)]).Rounded :=
    .object (List.nodup_singleton _) (List.forall_mem_singleton.mpr (.whole _))
  have lost : legibleEntries [(name, .whole number)] = [] := by
    rw [legibleEntries, legible?, if_pos many]
    rfl
  have script : Format.ts ≠ .json := by decide
  have blank : (Indentation.spaces 2).Blank := trivial
  rw [read_eq_readScript script noJson, readScript_write script blank rounded, lost]
  rfl

end RoundTrip

end Phrasebook.Proofs.ScriptCatalogs
