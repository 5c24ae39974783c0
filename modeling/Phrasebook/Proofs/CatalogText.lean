import Phrasebook.Catalog.File
import Phrasebook.Proofs.NumberText
import Phrasebook.Proofs.QuotedText

/-! The text of a value on indented lines is read as the value. What a value may be is what reading gives: names are told
apart at every level, whole numbers have no more digits than are read, and numbers of 64 bits are canonical. -/

namespace Phrasebook.Catalog.Value

open Decimal

/-- A value that a text can stand for. -/
inductive Storable : Value → Prop
  | null : Storable .null
  | truth (value : Bool) : Storable (.truth value)
  | whole {value : ℤ} (few : (digitsOf value.natAbs).length ≤ 4300) : Storable (.whole value)
  | real {value : Binary64} (canonical : value.Canonical) : Storable (.real value)
  | text (value : String) : Storable (.text value)
  | list {items : List Value} (inside : ∀ item ∈ items, Storable item) : Storable (.list items)
  | object {entries : Entries} (names : (Table.names entries).Nodup) (inside : ∀ entry ∈ entries, Storable entry.2) :
      Storable (.object entries)

theorem Storable.names {entries : Entries} : (Value.object entries).Storable → (Table.names entries).Nodup
  | .object names _ => names

theorem Storable.inside {entries : Entries} : (Value.object entries).Storable → ∀ entry ∈ entries, entry.2.Storable
  | .object _ inside => inside

end Phrasebook.Catalog.Value

namespace Phrasebook.Proofs.CatalogText

open Catalog Value JsonText NumberText QuotedText

/-- A value's text starts with a character that separates and closes nothing. -/
theorem starts_of_value {steps : ℕ} {cs : List Char} {result : Value × List Char}
    (reading : value steps cs = .ok result) : ∃ c rest, cs = c :: rest ∧ isSpace c = false ∧ c ≠ ']' := by
  cases steps with
  | zero => simp [value] at reading
  | succ steps =>
    cases cs with
    | nil => simp [value, number, unsignedNumber, wholeDigits] at reading
    | cons c rest =>
      refine ⟨c, rest, rfl, ?_, ?_⟩
      · by_contra space
        simp only [isSpace, Bool.not_eq_false, Bool.or_eq_true, decide_eq_true_eq] at space
        rcases space with ((rfl | rfl) | rfl) | rfl <;>
          simp [value, number, unsignedNumber, wholeDigits] at reading
      · rintro rfl
        simp [value, number, unsignedNumber, wholeDigits] at reading

theorem skipSpace_of_value {steps : ℕ} {cs : List Char} {result : Value × List Char}
    (reading : value steps cs = .ok result) : skipSpace cs = cs := by
  obtain ⟨c, rest, rfl, noSpace, _⟩ := starts_of_value reading
  simp [skipSpace, noSpace]

theorem skipSpace_append {spaces : List Char} (blank : ∀ c ∈ spaces, isSpace c = true) (rest : List Char) :
    skipSpace (spaces ++ rest) = skipSpace rest := by
  induction spaces with
  | nil => rfl
  | cons c spaces ih =>
    rw [List.cons_append, skipSpace, List.dropWhile_cons_of_pos (blank c List.mem_cons_self)]
    exact ih fun other member => blank other (List.mem_cons_of_mem _ member)

theorem ends_of_head {c : Char} {rest : List Char} (stops : c.isDigit = false ∧ c ≠ '.' ∧ c ≠ 'e' ∧ c ≠ 'E') :
    Ends (c :: rest) := by
  rintro other ⟨⟩
  exact stops

theorem separator_lines (indent : String) (depth : ℕ) :
    (separator (.lines indent) depth).toList = ',' :: (margin (.lines indent) depth).toList := by
  simp [separator, margin]

section Layout

variable {indent : String} (blank : ∀ c ∈ indent.toList, isSpace c = true)

theorem ends_margin (depth : ℕ) (rest : List Char) : Ends ((margin (.lines indent) depth).toList ++ rest) := by
  rw [margin, String.toList_append]
  exact ends_of_head (by decide)

include blank

theorem skipSpace_margin (depth : ℕ) (rest : List Char) :
    skipSpace ((margin (.lines indent) depth).toList ++ rest) = skipSpace rest := by
  refine skipSpace_append ?_ rest
  intro c member
  simp only [margin, String.toList_append, String.toList_join, List.mem_append, List.mem_flatMap,
    List.mem_replicate] at member
  rcases member with lineBreak | ⟨_, ⟨_, rfl⟩, inside⟩
  · obtain rfl : c = '\n' := by simpa using lineBreak
    rfl
  · exact blank c inside

/-- The text of a value is read as the value, whatever stands behind it. -/
def Reads (indent : String) (found : Value) : Prop :=
  ∀ depth steps rest, Ends rest → (renderAt (.lines indent) depth found).length ≤ steps →
    value (steps + 1) ((renderAt (.lines indent) depth found).toList ++ rest) = .ok (found, rest)

omit blank in
theorem skipSpace_of_reads {found : Value} (reads : Reads indent found) (depth : ℕ) {rest : List Char}
    (ends : Ends rest) : skipSpace ((renderAt (.lines indent) depth found).toList ++ rest) =
      (renderAt (.lines indent) depth found).toList ++ rest :=
  skipSpace_of_value (reads depth _ rest ends le_rfl)

omit blank in
theorem ends_renderItems (items : List Value) (depth outer : ℕ) (rest : List Char) :
    Ends ((renderItems (.lines indent) depth items).toList ++ ((margin (.lines indent) outer).toList ++ rest)) := by
  cases items with
  | nil => exact ends_margin outer rest
  | cons item items =>
    simp only [renderItems, String.toList_append, separator_lines, List.cons_append]
    exact ends_of_head (by decide)

omit blank in
theorem separator_length_pos (depth : ℕ) : 0 < (separator (.lines indent) depth).length := by
  rw [← String.length_toList, separator_lines]
  exact Nat.succ_pos _

omit blank in
theorem items_last {steps : ℕ} {cs after behind : List Char} {first : Value}
    (reading : value steps cs = .ok (first, after)) (closes : skipSpace after = ']' :: behind) :
    items (steps + 1) cs = .ok ([first], behind) := by
  rw [items, reading]
  simp only [bind, Except.bind, closes]
  rfl

omit blank in
theorem items_more {steps : ℕ} {cs after behind : List Char} {first : Value} {rest : List Value}
    (reading : value steps cs = .ok (first, ',' :: after)) (others : items steps (skipSpace after) = .ok (rest, behind)) :
    items (steps + 1) cs = .ok (first :: rest, behind) := by
  have comma : skipSpace (',' :: after) = ',' :: after := rfl
  rw [items, reading]
  simp only [bind, Except.bind, comma, others]
  rfl

theorem items_renderItems {first : Value} {rest : List Value} (reads : ∀ item ∈ first :: rest, Reads indent item)
    (depth outer : ℕ) (behind : List Char) {steps : ℕ}
    (enough : (renderAt (.lines indent) depth first).length + (renderItems (.lines indent) depth rest).length ≤ steps) :
    items (steps + 2) ((renderAt (.lines indent) depth first).toList ++
      ((renderItems (.lines indent) depth rest).toList ++
        ((margin (.lines indent) outer).toList ++ ']' :: behind))) = .ok (first :: rest, behind) := by
  induction rest generalizing first steps with
  | nil =>
    rw [renderItems, String.toList_empty, List.nil_append]
    refine items_last (reads first List.mem_cons_self depth steps _ (ends_margin outer _) (by omega)) ?_
    exact skipSpace_margin blank outer (']' :: behind)
  | cons second rest ih =>
    have comma : 0 < (separator (.lines indent) depth).length := separator_length_pos depth
    rw [renderItems, String.length_append, String.length_append] at enough
    obtain ⟨steps, rfl⟩ := Nat.exists_eq_succ_of_ne_zero (by omega : steps ≠ 0)
    simp only [renderItems, String.toList_append, separator_lines, List.append_assoc, List.cons_append]
    refine items_more (reads first List.mem_cons_self depth _ _ (ends_of_head (by decide)) (by omega)) ?_
    rw [skipSpace_margin blank, skipSpace_of_reads (reads second (by simp)) depth (ends_renderItems rest depth outer _)]
    exact ih (fun item member => reads item (List.mem_cons_of_mem _ member)) (by omega)

omit blank in
theorem entries_last {steps : ℕ} {name : String} {cs after behind : List Char} {first : Value}
    (reading : value steps (skipSpace cs) = .ok (first, after)) (closes : skipSpace after = '\x7d' :: behind) :
    JsonText.entries (steps + 1) ((quote name).toList ++ ':' :: cs) = .ok ([(name, first)], behind) := by
  have colon : skipSpace (':' :: cs) = ':' :: cs := rfl
  simp only [toList_quote, List.cons_append, List.append_assoc, List.nil_append, JsonText.entries, quoted_quote, colon,
    reading, bind, Except.bind, closes]
  rfl

omit blank in
theorem entries_more {steps : ℕ} {name : String} {cs after behind : List Char} {first : Value} {rest : Entries}
    (reading : value steps (skipSpace cs) = .ok (first, ',' :: after))
    (others : JsonText.entries steps (skipSpace after) = .ok (rest, behind)) :
    JsonText.entries (steps + 1) ((quote name).toList ++ ':' :: cs) = .ok ((name, first) :: rest, behind) := by
  have colon : skipSpace (':' :: cs) = ':' :: cs := rfl
  have comma : skipSpace (',' :: after) = ',' :: after := rfl
  simp only [toList_quote, List.cons_append, List.append_assoc, List.nil_append, JsonText.entries, quoted_quote, colon,
    reading, bind, Except.bind, comma, others]
  rfl

theorem entries_renderEntries {name : String} {first : Value} {rest : Entries}
    (reads : ∀ entry ∈ (name, first) :: rest, Reads indent entry.2)
    (depth outer : ℕ) (behind : List Char) {steps : ℕ}
    (enough : (renderAt (.lines indent) depth first).length + (renderEntries (.lines indent) depth rest).length ≤ steps) :
    JsonText.entries (steps + 2) ((quote name).toList ++ ':' :: ' ' :: ((renderAt (.lines indent) depth first).toList ++
      ((renderEntries (.lines indent) depth rest).toList ++
        ((margin (.lines indent) outer).toList ++ '\x7d' :: behind)))) = .ok ((name, first) :: rest, behind) := by
  have here : Reads indent first := reads (name, first) List.mem_cons_self
  induction rest generalizing name first steps with
  | nil =>
    have ends : Ends ((margin (.lines indent) outer).toList ++ '\x7d' :: behind) := ends_margin outer _
    rw [renderEntries, String.toList_empty, List.nil_append]
    refine entries_last ?_ (skipSpace_margin blank outer ('\x7d' :: behind))
    exact (congrArg (value _) (skipSpace_of_reads here depth ends)).trans (here depth steps _ ends (by omega))
  | cons second rest ih =>
    obtain ⟨other, second⟩ := second
    have comma : 0 < (separator (.lines indent) depth).length := separator_length_pos depth
    have ends {rest : List Char} : Ends (',' :: rest) := ends_of_head (by decide)
    rw [renderEntries, String.length_append, String.length_append, String.length_append, String.length_append] at enough
    obtain ⟨steps, rfl⟩ := Nat.exists_eq_succ_of_ne_zero (by omega : steps ≠ 0)
    have others : ∀ entry ∈ (other, second) :: rest, Reads indent entry.2 :=
      fun entry member => reads entry (List.mem_cons_of_mem _ member)
    have following := @ih other second others steps (by omega) (others _ List.mem_cons_self)
    simp only [renderEntries, String.toList_append, separator_lines, List.append_assoc, List.cons_append]
    refine entries_more ((congrArg (value _) (skipSpace_of_reads here depth ends)).trans
      (here depth _ _ ends (by omega))) ?_
    have colon : ": ".toList = [':', ' '] := rfl
    rw [skipSpace_margin blank, colon]
    rw [toList_quote] at following ⊢
    exact following

omit blank in
theorem value_list {steps : ℕ} {cs behind : List Char} {found : List Value}
    (reading : items (steps + 1) (skipSpace cs) = .ok (found, behind)) :
    value (steps + 2) ('[' :: cs) = .ok (.list found, behind) := by
  have opens : ∃ c rest, skipSpace cs = c :: rest ∧ c ≠ ']' := by
    cases inside : value steps (skipSpace cs) with
    | error failure => simp [items, inside, bind, Except.bind] at reading
    | ok first =>
      obtain ⟨c, rest, same, _, other⟩ := starts_of_value inside
      exact ⟨c, rest, same, other⟩
  obtain ⟨c, rest, same, other⟩ := opens
  rw [same] at reading
  simp [value, same, other, reading, bind, Except.bind, pure, Except.pure]

omit blank in
theorem value_object {steps : ℕ} {cs behind : List Char} {found : Entries} (names : (Table.names found).Nodup)
    (reading : JsonText.entries (steps + 1) (skipSpace cs) = .ok (found, behind)) :
    value (steps + 2) ('\x7b' :: cs) = .ok (.object found, behind) := by
  have opens : ∃ rest, skipSpace cs = '"' :: rest := by
    by_contra other
    rw [JsonText.entries] at reading
    · cases reading
    · exact fun rest same => other ⟨rest, same⟩
  obtain ⟨rest, same⟩ := opens
  rw [same] at reading
  simp [value, same, reading, bind, Except.bind, pure, Except.pure, Table.ofList_eq_self names]

/-- A value that a text can stand for is read from its text. -/
theorem reads_of_storable {found : Value} (storable : found.Storable) : Reads indent found := by
  induction storable with
  | null =>
    intro depth steps rest _ _
    rw [renderAt]
    rfl
  | truth found =>
    intro depth steps rest _ _
    rw [renderAt]
    cases found <;> rfl
  | whole few =>
    intro depth steps rest ends _
    rw [renderAt, whole_text few ends]
  | real canonical =>
    intro depth steps rest ends _
    rw [renderAt, number_text canonical ends]
  | text found =>
    intro depth steps rest _ _
    simp only [renderAt, toList_quote, List.cons_append, List.append_assoc, List.nil_append, value, quoted_quote]
  | @list found inside ih =>
    intro depth steps rest _ enough
    cases found with
    | nil => rw [renderAt]; rfl
    | cons first more =>
      have opens : "[".toList = ['['] := rfl
      have closes : "]".toList = [']'] := rfl
      have openLength : "[".length = 1 := rfl
      have closeLength : "]".length = 1 := rfl
      simp only [renderAt, String.length_append] at enough
      obtain ⟨steps, rfl⟩ := Nat.exists_eq_add_of_le' (by omega : 2 ≤ steps)
      simp only [renderAt, String.toList_append, opens, closes, List.append_assoc, List.cons_append, List.nil_append]
      refine value_list ?_
      rw [skipSpace_margin blank, skipSpace_of_reads (ih first (by simp)) _ (ends_renderItems more _ depth _)]
      exact items_renderItems blank ih _ depth rest (by omega)
  | @object found names inside ih =>
    intro depth steps rest _ enough
    cases found with
    | nil => rw [renderAt]; rfl
    | cons first more =>
      obtain ⟨name, first⟩ := first
      have opens : "\x7b".toList = ['\x7b'] := rfl
      have closes : "\x7d".toList = ['\x7d'] := rfl
      have colon : ": ".toList = [':', ' '] := rfl
      have openLength : "\x7b".length = 1 := rfl
      have closeLength : "\x7d".length = 1 := rfl
      simp only [renderAt, String.length_append] at enough
      obtain ⟨steps, rfl⟩ := Nat.exists_eq_add_of_le' (by omega : 2 ≤ steps)
      simp only [renderAt, String.toList_append, opens, closes, colon, List.append_assoc, List.cons_append,
        List.nil_append]
      refine value_object names ?_
      have skips (after : List Char) : skipSpace ((quote name).toList ++ after) = (quote name).toList ++ after := by
        rw [toList_quote]
        rfl
      rw [skipSpace_margin blank, skips]
      exact entries_renderEntries blank ih _ depth rest (by omega)

theorem read_render {found : Value} (storable : found.Storable) :
    JsonText.read (found.render (.lines indent) ++ "\n") = .ok found := by
  have reads := reads_of_storable blank storable
  have lineBreak : "\n".toList = ['\n'] := rfl
  have ends : Ends ['\n'] := ends_of_head (by decide)
  rw [JsonText.read, render, String.toList_append, lineBreak, skipSpace_of_reads reads 0 ends]
  dsimp only
  rw [reads 0 _ _ ends (by rw [← String.length_toList, List.length_append]; omega)]
  rfl

end Layout

end Phrasebook.Proofs.CatalogText
