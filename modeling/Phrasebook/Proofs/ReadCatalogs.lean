import Phrasebook.Catalog.File
import Phrasebook.Proofs.StorableValues

/-! What reading a catalog gives, in whatever format its text is: a value whose numbers are rounded, and in which no
object names anything twice, since a name that comes again takes its last value. -/

namespace Phrasebook.Proofs.ReadCatalogs

open Catalog Decimal Binary64 NearestNumber StorableValues Syntax

section Results

variable {α β : Type}

/-- What steps give is given by one of them. -/
theorem exists_of_mem_mapM {step : α → Except Failure β} {items : List α} {results : List β}
    (all : items.mapM step = .ok results) : ∀ result ∈ results, ∃ item ∈ items, step item = .ok result := by
  induction items generalizing results with
  | nil =>
    obtain rfl := Except.ok.inj all
    simp
  | cons item rest ih =>
    rw [List.mapM_cons] at all
    obtain ⟨first, made, further⟩ := bind_eq_ok all
    obtain ⟨others, madeOthers, same⟩ := bind_eq_ok further
    obtain rfl := Except.ok.inj same
    refine List.forall_mem_cons.mpr ⟨⟨item, List.mem_cons_self, made⟩, ?_⟩
    intro result member
    obtain ⟨other, inside, madeHere⟩ := ih madeOthers result member
    exact ⟨other, List.mem_cons_of_mem _ inside, madeHere⟩

end Results

section Literals

theorem canonical_of_readReal? {cs : List Char} {number : Binary64} (read : readReal? cs = some number) :
    number.Canonical := by
  have rounded (negative : Bool) (digits : ℕ) (power : ℤ) : (ofDecimal negative digits power).Canonical := by
    rw [ofDecimal_eq]
    exact canonical_nearest negative (by positivity)
  unfold readReal? at read
  dsimp only at read
  split at read
  · exact Option.some.inj read ▸ rounded _ _ _
  · split at read
    · split at read
      all_goals
        split at read
        · cases read
        · exact Option.some.inj read ▸ rounded _ _ _
    · cases read

theorem rounded_of_readNumber? {text : String} {literal : Literal} (read : readNumber? text = some literal) :
    (Value.ofLiteral literal).Rounded := by
  have either {isReal : Bool} {cs : List Char}
      (read : (if isReal then (readReal? cs).map .real else (readWhole? cs).map .whole) = some literal) :
      (Value.ofLiteral literal).Rounded := by
    split at read
    · obtain ⟨number, real, rfl⟩ := Option.map_eq_some_iff.mp read
      exact .real (canonical_of_readReal? real)
    · obtain ⟨number, _, rfl⟩ := Option.map_eq_some_iff.mp read
      exact .whole number
  exact either read

theorem canonical_neg {number : Binary64} (canonical : number.Canonical) : number.neg.Canonical := by
  cases number with
  | finite negative significand exponent => exact canonical
  | _ => trivial

theorem rounded_of_negated? {literal : Literal} {value : Value} (rounded : (Value.ofLiteral literal).Rounded)
    (made : Value.negated? literal = some value) : value.Rounded := by
  cases literal with
  | whole number => exact Option.some.inj made ▸ .whole _
  | real number =>
    cases rounded with
    | real canonical => exact Option.some.inj made ▸ .real (canonical_neg canonical)
  | _ => cases made

theorem rounded_of_literal? {node : Node} {literal : Literal} (read : node.literal? = .ok (some literal)) :
    (Value.ofLiteral literal).Rounded := by
  unfold Node.literal? at read
  split at read
  · cases read
  · obtain ⟨text, _, further⟩ := bind_eq_ok read
    split at further
    · exact Option.some.inj (Except.ok.inj further) ▸ .text _
    · split at further
      · exact Option.some.inj (Except.ok.inj further) ▸ .truth true
      · exact Option.some.inj (Except.ok.inj further) ▸ .truth false
      · exact Option.some.inj (Except.ok.inj further) ▸ .null
      · exact rounded_of_readNumber? (Except.ok.inj further)
      · cases further

theorem rounded_of_ofLiteral {node : Node} {found : Value}
    (reading : (do pure ((← node.literal?).map Value.ofLiteral)) = Except.ok (ε := Failure) (some found)) :
    found.Rounded := by
  obtain ⟨literal, read, same⟩ := bind_eq_ok reading
  obtain ⟨value, rfl, rfl⟩ := Option.map_eq_some_iff.mp (Except.ok.inj same)
  exact rounded_of_literal? read

end Literals

theorem rounded_entriesOf {object : Node}
    (values : ∀ node : Node, node.size < object.size → ∀ found, Value.ofNode? node = .ok (some found) → found.Rounded)
    {entries : Entries} (reading : Value.entriesOf object = .ok entries) : (Value.object entries).Rounded := by
  rw [Value.entriesOf] at reading
  obtain ⟨members, read, same⟩ := bind_eq_ok reading
  obtain rfl := Except.ok.inj same
  refine .object (Table.nodup_names_ofList _) ?_
  intro entry member
  obtain ⟨given, inside, rfl⟩ := List.mem_filterMap.mp (Table.mem_of_mem_ofList member)
  obtain ⟨⟨pair, part⟩, _, made⟩ := exists_of_mem_mapM read _ inside
  dsimp only at made
  split at made
  · -- whether or not the member has a key, a name is read, and behind it the value
    split at made
    all_goals
      obtain ⟨name, _, further⟩ := bind_eq_ok made
      split at further
      next name value held _ =>
        obtain ⟨found, readValue, same⟩ := bind_eq_ok further
        obtain ⟨value, rfl, rfl⟩ := Option.map_eq_some_iff.mp (Except.ok.inj same)
        have smaller := Nat.lt_trans (Node.size_lt_of_child? held) (Node.size_lt_of_mem_parts part)
        exact values _ smaller _ readValue
      next => cases further
  · cases made

theorem rounded_of_ofNode? (expression : Node) {found : Value}
    (reading : Value.ofNode? expression = .ok (some found)) : found.Rounded := by
  induction size : expression.size using Nat.strong_induction_on generalizing expression found with
  | _ bound ih =>
    subst size
    rw [Value.ofNode?] at reading
    split at reading
    · cases reading
    next node unwrapped =>
      have within := Node.size_le_of_unwrap unwrapped
      dsimp only at reading
      split at reading
      · split at reading
        · cases reading
        next value rest held =>
          have smaller := Node.size_lt_of_mem_parts (held ▸ List.mem_cons_self : value ∈ node.parts)
          exact ih value.size (Nat.lt_of_lt_of_le smaller within) value reading rfl
      · split at reading
        · cases reading
        next value rest held =>
          have smaller := Node.size_lt_of_mem_parts (held ▸ List.mem_cons_self : value ∈ node.parts)
          exact ih value.size (Nat.lt_of_lt_of_le smaller within) value reading rfl
      · obtain ⟨entries, readEntries, same⟩ := bind_eq_ok reading
        obtain rfl := Option.some.inj (Except.ok.inj same)
        refine rounded_entriesOf ?_ readEntries
        intro value smaller inner readValue
        exact ih value.size (Nat.lt_of_lt_of_le smaller within) value readValue rfl
      · obtain ⟨items, readItems, same⟩ := bind_eq_ok reading
        obtain rfl := Option.some.inj (Except.ok.inj same)
        refine .list fun item member => ?_
        obtain ⟨given, inside, rfl⟩ := List.mem_filterMap.mp member
        obtain ⟨⟨value, part⟩, _, readValue⟩ := exists_of_mem_mapM readItems _ inside
        have smaller := Node.size_lt_of_mem_parts part
        exact ih value.size (Nat.lt_of_lt_of_le smaller within) value readValue rfl
      · split at reading
        · split at reading
          · cases reading
          · obtain ⟨literal, read, same⟩ := bind_eq_ok reading
            obtain ⟨value, rfl, negated⟩ := Option.bind_eq_some_iff.mp (Except.ok.inj same)
            exact rounded_of_negated? (rounded_of_literal? read) negated
        · exact rounded_of_ofLiteral reading
      · exact rounded_of_ofLiteral reading

theorem rounded_of_readScript {path text : String} {found : Value} (reading : readScript path text = .ok found) :
    found.Rounded := by
  unfold readScript at reading
  split at reading
  · cases reading
  · split at reading
    · cases reading
    · obtain ⟨entries, readEntries, same⟩ := bind_eq_ok reading
      obtain rfl := Except.ok.inj same
      exact rounded_entriesOf (fun value _ inner => rounded_of_ofNode? value) readEntries

/-- What is read of a catalog is rounded, and names nothing twice in any of its objects. -/
theorem rounded_of_formatRead {format : Format} {path text : String} {found : Value}
    (reading : format.read path text = .ok found) : found.Rounded := by
  unfold Format.read at reading
  split at reading
  · split at reading
    · exact Except.ok.inj reading ▸ .object List.nodup_nil (by simp)
    · exact (storable_of_read reading).rounded
  · exact rounded_of_readScript reading

end Phrasebook.Proofs.ReadCatalogs
