import Phrasebook.Proofs.NumberText
import Phrasebook.Proofs.ScriptTokens

/-! Numbers in scripts. The decimal of a number is one literal there, and it has the value that the same text has as
JSON. -/

namespace Phrasebook.Proofs.ScriptNumbers

open Catalog Decimal Binary64 JsonText NumberText ParseSteps ScriptTokens Syntax Parse

/-- The parts of a number's text: a whole part, the digits behind a point, and a power of ten below or above one. -/
structure Numeral where
  whole : List Char
  fraction : List Char
  power : Option (Bool × List Char)

namespace Numeral

def pointText (numeral : Numeral) : List Char := if numeral.fraction = [] then [] else '.' :: numeral.fraction

def powerText (numeral : Numeral) : List Char :=
  match numeral.power with
  | none => []
  | some (below, size) => 'e' :: (if below then '-' else '+') :: size

def text (numeral : Numeral) : List Char := numeral.whole ++ (numeral.pointText ++ numeral.powerText)

def shift (numeral : Numeral) : Int :=
  match numeral.power with
  | none => 0
  | some (below, size) => if below then -(digitsValue size : Int) else digitsValue size

/-- The number of 64 bits that the text is read as. -/
def value (numeral : Numeral) : Binary64 :=
  ofDecimal false (digitsValue (numeral.whole ++ numeral.fraction)) (numeral.shift - numeral.fraction.length)

structure Valid (numeral : Numeral) : Prop where
  whole : Whole numeral.whole
  fraction : ∀ c ∈ numeral.fraction, c.isDigit = true
  power : ∀ below size, numeral.power = some (below, size) → size ≠ [] ∧ ∀ c ∈ size, c.isDigit = true

/-- A numeral that is not a whole number's. -/
def IsReal (numeral : Numeral) : Prop := numeral.fraction ≠ [] ∨ numeral.power ≠ none

end Numeral

variable {numeral : Numeral} {digits rest cs behind : List Char} {total : ℕ}

section Lengths

/-- What stands behind a number in a printed list or object: the comma before the next item or a new line. -/
inductive Delimited : List Char → Prop
  | comma (rest : List Char) : Delimited (',' :: rest)
  | line (rest : List Char) : Delimited ('\n' :: rest)

/-- What ends a run of digits. -/
def Stops (rest : List Char) : Prop := ∀ c ∈ rest.head?, c.isDigit = false ∧ c ≠ '_'

theorem stops_nil : Stops [] := by
  rintro _ ⟨⟩

theorem Delimited.stops (delimited : Delimited rest) : Stops rest := by
  cases delimited <;> rintro _ ⟨⟩ <;> decide

theorem digitRun_append (all : ∀ c ∈ digits, c.isDigit = true) (stops : Stops rest) :
    digitRun Char.isDigit (digits ++ rest) = digits.length := by
  induction digits with
  | nil =>
    cases rest with
    | nil => rfl
    | cons c rest =>
      obtain ⟨noDigit, noMark⟩ := stops c rfl
      simp [digitRun, noDigit, noMark]
  | cons c digits ih =>
    have digit : c.isDigit = true := all c List.mem_cons_self
    rw [List.cons_append, digitRun.eq_def]
    dsimp only
    rw [if_pos digit, ih fun other member => all other (List.mem_cons_of_mem _ member), List.length_cons, Nat.add_comm]

theorem digitsLength_append (all : ∀ c ∈ digits, c.isDigit = true) (stops : Stops rest) :
    digitsLength Char.isDigit (digits ++ rest) = digits.length := by
  have run := digitRun_append all stops
  cases digits with
  | nil =>
    cases rest with
    | nil => rfl
    | cons c rest => simp [digitsLength, (stops c rfl).1]
  | cons c digits =>
    have digit : c.isDigit = true := all c List.mem_cons_self
    rw [List.cons_append] at run ⊢
    rw [digitsLength, if_pos digit, run]

theorem exponentLength_powerText (valid : numeral.Valid) (delimited : Delimited rest) :
    exponentLength (numeral.powerText ++ rest) = numeral.powerText.length := by
  unfold Numeral.powerText
  cases power : numeral.power with
  | none => cases delimited <;> rfl
  | some marked =>
    obtain ⟨below, size⟩ := marked
    obtain ⟨some, all⟩ := valid.power below size power
    have length : digitsLength Char.isDigit (size ++ rest) = size.length :=
      digitsLength_append all delimited.stops
    have filled : size.length ≠ 0 := fun none => some (List.length_eq_zero_iff.mp none)
    cases below <;> simp [exponentLength, length, filled] <;> omega

theorem stops_powerText (numeral : Numeral) (stops : Stops rest) : Stops (numeral.powerText ++ rest) := by
  unfold Numeral.powerText
  cases numeral.power with
  | none => exact stops
  | some marked =>
    rintro _ ⟨⟩
    decide

theorem stops_pointText (numeral : Numeral) (stops : Stops rest) :
    Stops (numeral.pointText ++ (numeral.powerText ++ rest)) := by
  unfold Numeral.pointText
  split
  · exact stops_powerText numeral stops
  · rintro _ ⟨⟩
    decide

theorem Numeral.Valid.first {numeral : Numeral} (valid : numeral.Valid) :
    ∃ first more, numeral.whole = first :: more ∧ first.isDigit = true ∧ (first ≠ '0' ∨ more = []) ∧
      ∀ c ∈ numeral.whole, c.isDigit = true := by
  rcases valid.whole with zero | ⟨first, more, whole, notZero, all⟩
  · refine ⟨'0', [], zero, rfl, .inr rfl, ?_⟩
    rw [zero]
    exact List.forall_mem_singleton.mpr rfl
  · exact ⟨first, more, whole, all first (whole ▸ List.mem_cons_self), .inl notZero, all⟩

/-- No point stands behind a numeral's digits unless it has a fraction. -/
theorem head_powerText (numeral : Numeral) (noPoint : (rest.head? == some '.') = false) :
    ((numeral.powerText ++ rest).head? == some '.') = false := by
  unfold Numeral.powerText
  cases numeral.power with
  | none => exact noPoint
  | some marked => rfl

/-- A numeral is cut off as a whole. -/
theorem decimalLength_numeral (valid : numeral.Valid) (delimited : Delimited rest) :
    decimalLength (numeral.text ++ rest) = numeral.text.length := by
  obtain ⟨first, more, whole, -, noZero, all⟩ := valid.first
  have text : numeral.text ++ rest = numeral.whole ++ (numeral.pointText ++ (numeral.powerText ++ rest)) := by
    simp [Numeral.text]
  have wholeLength : digitsLength Char.isDigit (numeral.text ++ rest) = numeral.whole.length := by
    rw [text]
    exact digitsLength_append all (stops_pointText numeral delimited.stops)
  have power := exponentLength_powerText valid delimited
  have dropped : (numeral.text ++ rest).drop numeral.whole.length =
      numeral.pointText ++ (numeral.powerText ++ rest) := by rw [text, List.drop_left]
  have plain : (decide (numeral.whole.length = 1) || (numeral.text ++ rest).head? != some '0') = true := by
    rw [text, whole]
    rcases noZero with other | none
    · simp [other]
    · simp [none]
  have filled : numeral.whole.length ≠ 0 := by
    rw [whole]
    exact Nat.succ_ne_zero _
  unfold decimalLength
  dsimp only
  rw [wholeLength, if_neg filled, plain, Bool.true_or, dropped]
  by_cases pointless : numeral.fraction = []
  · have noPoint : numeral.pointText = [] := if_pos pointless
    have head := head_powerText numeral (by cases delimited <;> rfl : (rest.head? == some '.') = false)
    have length : numeral.text.length = numeral.whole.length + numeral.powerText.length := by
      rw [Numeral.text, noPoint, List.nil_append, List.length_append]
    rw [noPoint, List.nil_append, head, power]
    by_cases powerless : numeral.powerText = []
    · have noMark : (rest.head? == some 'n') = false := by cases delimited <;> rfl
      have behind : (numeral.text ++ rest).drop numeral.whole.length = rest := by
        rw [dropped, noPoint, powerless, List.nil_append, List.nil_append]
      simp [powerless, bigLength, behind, noMark, length]
    · have some : 0 < numeral.powerText.length := List.length_pos_iff.mpr powerless
      simp [some, length]
  · have pointed : numeral.pointText = '.' :: numeral.fraction := if_neg pointless
    have fraction : digitsLength Char.isDigit (numeral.fraction ++ (numeral.powerText ++ rest)) =
        numeral.fraction.length := digitsLength_append valid.fraction (stops_powerText numeral delimited.stops)
    have length : numeral.text.length =
        numeral.whole.length + 1 + numeral.fraction.length + numeral.powerText.length := by
      rw [Numeral.text, pointed, List.length_append, List.cons_append, List.length_cons, List.length_append]
      omega
    rw [pointed, List.cons_append, List.head?_cons, beq_self_eq_true, Bool.true_and, if_pos rfl, List.drop_one,
      List.tail_cons, fraction, Nat.add_comm 1, List.drop_succ_cons, List.drop_left, power, length]

/-- No base stands behind a zero. -/
theorem second_of_zero (valid : numeral.Valid) (delimited : Delimited rest) {c : Char} {more : List Char}
    (same : numeral.text ++ rest = '0' :: c :: more) : c = '.' ∨ c = 'e' ∨ c = ',' ∨ c = '\n' := by
  obtain ⟨first, digits, whole, -, noZero, -⟩ := valid.first
  rw [Numeral.text, whole, List.append_assoc, List.cons_append] at same
  obtain ⟨zero, behind⟩ := List.cons.inj same
  rw [noZero.resolve_left (not_not_intro zero), List.nil_append] at behind
  unfold Numeral.pointText Numeral.powerText at behind
  split at behind
  · split at behind
    · cases delimited with
      | comma => exact .inr (.inr (.inl (List.cons.inj behind).1.symm))
      | line => exact .inr (.inr (.inr (List.cons.inj behind).1.symm))
    · exact .inr (.inl (List.cons.inj behind).1.symm)
  · exact .inl (List.cons.inj behind).1.symm

theorem numberLength_numeral (valid : numeral.Valid) (delimited : Delimited rest) :
    numberLength (numeral.text ++ rest) = numeral.text.length := by
  have second {c : Char} {more : List Char} := @second_of_zero numeral rest valid delimited c more
  unfold numberLength
  dsimp only
  split
  next same => exact absurd (second same) (by decide)
  next same => exact absurd (second same) (by decide)
  next same => exact absurd (second same) (by decide)
  next same => exact absurd (second same) (by decide)
  next same => exact absurd (second same) (by decide)
  next same => exact absurd (second same) (by decide)
  next => exact decimalLength_numeral valid delimited

theorem reads_numberLiteral (valid : numeral.Valid) (delimited : Delimited behind)
    (skips : Skips cs (numeral.text ++ behind)) :
    Reads total numberLiteral cs behind (IsLeaf .numberLiteral numeral.text) := by
  obtain ⟨first, more, whole, -⟩ := valid.first
  refine (reads_peek skips).bind fun cursor stands => ?_
  rw [stands.rest, numberLength_numeral valid delimited, if_neg (by simp [Numeral.text, whole])]
  exact reads_leaf skips .numberLiteral rfl

end Lengths

section Values

theorem hexlessValue_eq (digits : List Char) : readReal?.hexlessValue digits = digitsValue digits := rfl

/-- A script reads a numeral with a point or a power as JSON does. -/
theorem readReal?_numeral (valid : numeral.Valid) : readReal? numeral.text = some numeral.value := by
  obtain ⟨first, more, whole, -, -, all⟩ := valid.first
  have wholeTaken : numeral.text.takeWhile Char.isDigit = numeral.whole := by
    have stops := stops_pointText numeral stops_nil
    rw [List.append_nil] at stops
    exact takeWhile_digits all fun c first => (stops c first).1
  have dropped : numeral.text.drop numeral.whole.length = numeral.pointText ++ numeral.powerText := List.drop_left
  have head := head_powerText numeral (rfl : (([] : List Char).head? == some '.') = false)
  rw [List.append_nil] at head
  have fraction : (if (numeral.pointText ++ numeral.powerText).head? == some '.'
      then ((numeral.pointText ++ numeral.powerText).drop 1).takeWhile Char.isDigit else []) = numeral.fraction := by
    by_cases pointless : numeral.fraction = []
    · have noPoint : numeral.pointText = [] := if_pos pointless
      rw [noPoint, List.nil_append, head, if_neg Bool.false_ne_true, pointless]
    · have pointed : numeral.pointText = '.' :: numeral.fraction := if_neg pointless
      have stops := stops_powerText numeral stops_nil
      rw [List.append_nil] at stops
      rw [pointed, List.cons_append, List.head?_cons, beq_self_eq_true, if_pos rfl, List.drop_one, List.tail_cons]
      exact takeWhile_digits valid.fraction fun c first => (stops c first).1
  have behind : (if (numeral.pointText ++ numeral.powerText).head? == some '.'
      then (numeral.pointText ++ numeral.powerText).drop (1 + numeral.fraction.length)
      else numeral.pointText ++ numeral.powerText) = numeral.powerText := by
    by_cases pointless : numeral.fraction = []
    · have noPoint : numeral.pointText = [] := if_pos pointless
      rw [noPoint, List.nil_append, head, if_neg Bool.false_ne_true]
    · have pointed : numeral.pointText = '.' :: numeral.fraction := if_neg pointless
      rw [pointed, List.cons_append, List.head?_cons, beq_self_eq_true, if_pos rfl, Nat.add_comm, List.drop_succ_cons,
        List.drop_left]
  unfold readReal?
  dsimp only
  rw [wholeTaken, dropped, fraction, behind, hexlessValue_eq]
  unfold Numeral.powerText Numeral.value Numeral.shift
  cases power : numeral.power with
  | none => simp
  | some marked =>
    obtain ⟨below, size⟩ := marked
    obtain ⟨some, digits⟩ := valid.power below size power
    have sized : (size.isEmpty || !size.all Char.isDigit) = false := by
      simpa [some] using digits
    cases below <;> simp [sized, hexlessValue_eq, Int.sub_eq_add_neg]

theorem filter_of_digits {cs : List Char} (noMark : '_' ∉ cs) : cs.filter (· ≠ '_') = cs := by
  refine List.filter_eq_self.mpr fun c member => decide_eq_true ?_
  rintro rfl
  exact noMark member

theorem notMem_of_digits {mark : Char} (noDigit : mark.isDigit = false) (all : ∀ c ∈ digits, c.isDigit = true) :
    mark ∉ digits := by
  intro member
  exact absurd (all mark member) (by rw [noDigit]; decide)

theorem notMem_numeral (valid : numeral.Valid) : '_' ∉ numeral.text := by
  obtain ⟨-, -, -, -, -, all⟩ := valid.first
  have noDigit : '_'.isDigit = false := by decide
  unfold Numeral.text Numeral.pointText Numeral.powerText
  rw [List.mem_append, List.mem_append]
  rintro (whole | point | power)
  · exact notMem_of_digits noDigit all whole
  · split at point
    · cases point
    · rcases List.mem_cons.mp point with same | fraction
      · exact absurd same (by decide)
      · exact notMem_of_digits noDigit valid.fraction fraction
  · split at power
    · cases power
    next below size marked =>
      rcases List.mem_cons.mp power with same | power
      · exact absurd same (by decide)
      · rcases List.mem_cons.mp power with same | inside
        · exact absurd same (by cases below <;> decide)
        · exact notMem_of_digits noDigit (valid.power below size marked).2 inside

/-- A numeral has a base only if it is not one. -/
theorem noBase_of_valid (valid : numeral.Valid) {c : Char} {more : List Char} (same : numeral.text = '0' :: c :: more) :
    c = '.' ∨ c = 'e' ∨ c = ',' ∨ c = '\n' := by
  have ended : numeral.text ++ [','] = '0' :: c :: (more ++ [',']) := by rw [same]; rfl
  exact second_of_zero valid (.comma []) ended

theorem readNumber?_real (valid : numeral.Valid) (real : numeral.IsReal) :
    readNumber? (String.ofList numeral.text) = some (.real numeral.value) := by
  have marked : numeral.text.any (fun c => c = '.' || c = 'e' || c = 'E') = true := by
    rw [List.any_eq_true]
    rcases real with fraction | power
    · refine ⟨'.', ?_, by decide⟩
      simp [Numeral.text, Numeral.pointText, fraction]
    · refine ⟨'e', ?_, by decide⟩
      obtain ⟨⟨below, size⟩, given⟩ := Option.ne_none_iff_exists'.mp power
      simp [Numeral.text, Numeral.powerText, given]
  unfold readNumber?
  dsimp only
  rw [String.toList_ofList, filter_of_digits (notMem_numeral valid), marked, Bool.and_true]
  split
  next same => exact absurd (noBase_of_valid valid same) (by decide)
  next same => exact absurd (noBase_of_valid valid same) (by decide)
  next => rw [Bool.not_false, if_pos rfl, readReal?_numeral valid, Option.map_some]

theorem hexValue_of_isDigit {c : Char} (digit : c.isDigit = true) :
    hexValue [c] = c.toNat - 48 ∧ hexValue [c] < 10 ∧ isHexDigit c = true := by
  have value : hexValue [c] = c.toNat - 48 := by simp [hexValue, digit]
  have high : c.toNat ≤ 57 := by
    simp only [Char.isDigit, Bool.and_eq_true, decide_eq_true_eq] at digit
    exact digit.2
  exact ⟨value, by omega, by simp [isHexDigit, digit]⟩

theorem foldl_hexValue (all : ∀ c ∈ digits, c.isDigit = true) (start : ℕ) :
    digits.foldl (fun value c => 10 * value + hexValue [c]) start =
      digits.foldl (fun value c => 10 * value + (c.toNat - 48)) start := by
  induction digits generalizing start with
  | nil => rfl
  | cons c digits ih =>
    rw [List.foldl_cons, List.foldl_cons, (hexValue_of_isDigit (all c List.mem_cons_self)).1]
    exact ih (fun other member => all other (List.mem_cons_of_mem _ member)) _

/-- A whole number is read unless it has too many digits. -/
theorem readWhole?_digitsOf (number : ℕ) :
    readWhole? (digitsOf number) = if 4300 < (digitsOf number).length then none else some (number : Int) := by
  have value : digitsValue (digitsOf number) = number := digitsValue_digitsOf number
  have all : ∀ c ∈ digitsOf number, c.isDigit = true := fun c member => isDigit_of_mem_digitsOf member
  have whole := whole_digitsOf number
  generalize digitsOf number = digits at value all whole
  rcases whole with rfl | ⟨first, more, rfl, notZero, -⟩
  · rw [← value]
    rfl
  · unfold readWhole?
    have other {tail : List Char} : first :: more ≠ '0' :: tail := fun same => notZero (List.cons.inj same).1
    split
    next same => exact absurd same other
    next same => exact absurd same other
    next same => exact absurd same other
    next same => exact absurd same other
    next same => exact absurd same other
    next same => exact absurd same other
    next same => exact absurd same other
    next =>
      have noBase : ((first :: more).any fun c => 10 ≤ hexValue [c]) = false := by
        rw [List.any_eq_false]
        intro c member
        have low := (hexValue_of_isDigit (all c member)).2.1
        simpa using low
      have hex : (first :: more).all isHexDigit = true := by
        rw [List.all_eq_true]
        exact fun c member => (hexValue_of_isDigit (all c member)).2.2
      dsimp only
      rw [noBase, hex, foldl_hexValue all]
      split
      · rfl
      · exact congrArg (fun number : ℕ => some (number : Int)) value

theorem readNumber?_whole (number : ℕ) :
    readNumber? (String.ofList (digitsOf number)) =
      if 4300 < (digitsOf number).length then none else some (.whole number) := by
  have all : ∀ c ∈ digitsOf number, c.isDigit = true := fun c member => isDigit_of_mem_digitsOf member
  have noMark : '_' ∉ digitsOf number := notMem_of_digits (by decide) all
  have plain : (digitsOf number).any (fun c => c = '.' || c = 'e' || c = 'E') = false := by
    rw [List.any_eq_false]
    rintro c member marked
    simp only [Bool.or_eq_true, decide_eq_true_eq] at marked
    rcases marked with (rfl | rfl) | rfl <;> exact absurd (all _ member) (by decide)
  unfold readNumber?
  dsimp only
  rw [String.toList_ofList, filter_of_digits noMark, plain, Bool.and_false, if_neg Bool.false_ne_true,
    readWhole?_digitsOf]
  split <;> rfl

/-- The text of a number of 64 bits as JSON is read. -/
theorem unsignedNumber_numeral (valid : numeral.Valid) (real : numeral.IsReal) :
    unsignedNumber false numeral.text = .ok (.real numeral.value, []) := by
  have ends : Ends [] := by
    rintro _ ⟨⟩
  have shown (cs : List Char) : cs ++ [] = cs := List.append_nil cs
  cases power : numeral.power with
  | none =>
    have fraction : numeral.fraction ≠ [] := real.resolve_right (not_not_intro power)
    have reading := unsignedNumber_point valid.whole fraction valid.fraction ends false
    rw [shown] at reading
    simpa [Numeral.text, Numeral.pointText, Numeral.powerText, Numeral.value, Numeral.shift, fraction, power] using
      reading
  | some marked =>
    obtain ⟨below, size⟩ := marked
    obtain ⟨some, digits⟩ := valid.power below size power
    have written : numeral.powerText = 'e' :: (if below then '-' else '+') :: (size ++ []) := by
      simp [Numeral.powerText, power]
    have point : fractionDigits (numeral.pointText ++ numeral.powerText) = (numeral.fraction, numeral.powerText) := by
      unfold Numeral.pointText
      split
      next pointless => rw [pointless, written]; rfl
      next pointed =>
        refine fractionDigits_point pointed valid.fraction ?_
        rw [written]
        rintro _ ⟨⟩
        decide
    have stops := stops_pointText numeral stops_nil
    rw [shown] at stops
    rw [written] at point
    have reading := unsignedNumber_power valid.whole point (by
      rw [← written]
      exact fun c first => (stops c first).1) some digits ends false below rfl
    rw [← written] at reading
    rw [Numeral.text, reading, Numeral.value, Numeral.shift, power]

theorem isDigit_replicate_zero (count : ℕ) : ∀ c ∈ List.replicate count '0', c.isDigit = true := by
  intro c member
  rw [List.eq_of_mem_replicate member]
  rfl

/-- A numeral without a power. -/
theorem valid_of_powerless {whole fraction : List Char} (digits : Whole whole)
    (all : ∀ c ∈ fraction, c.isDigit = true) : (⟨whole, fraction, none⟩ : Numeral).Valid where
  whole := digits
  fraction := all
  power := by rintro _ _ ⟨⟩

section Decimals

variable {first : Char} {more : List Char} (notZero : first ≠ '0') (all : ∀ c ∈ first :: more, c.isDigit = true)
include notZero all

theorem exists_numeral_positional (point : ℤ) :
    ∃ numeral : Numeral, numeral.Valid ∧ numeral.IsReal ∧ numeral.text = positional (first :: more) point := by
  unfold positional
  split
  next =>
    have fraction : ∀ c ∈ List.replicate (-point).toNat '0' ++ first :: more, c.isDigit = true :=
      List.forall_mem_append.mpr ⟨isDigit_replicate_zero _, all⟩
    refine ⟨⟨['0'], _, none⟩, valid_of_powerless (.inl rfl) fraction, .inl (by simp), ?_⟩
    simp [Numeral.text, Numeral.pointText, Numeral.powerText]
  next high =>
    obtain ⟨count, place⟩ := Nat.exists_eq_succ_of_ne_zero (by omega : point.toNat ≠ 0)
    dsimp only
    rw [place]
    generalize count + 1 - (first :: more).length = missing
    have whole : Whole ((first :: more).take (count + 1) ++ List.replicate missing '0') := by
      refine .inr ⟨first, more.take count ++ List.replicate missing '0', rfl, notZero, ?_⟩
      have taken : ∀ c ∈ (first :: more).take (count + 1), c.isDigit = true :=
        fun c member => all c (List.mem_of_mem_take member)
      exact List.forall_mem_append.mpr ⟨taken, isDigit_replicate_zero _⟩
    have fraction : ∀ c ∈ if ((first :: more).drop (count + 1)).isEmpty then ['0'] else (first :: more).drop (count + 1),
        c.isDigit = true := by
      split
      · exact List.forall_mem_singleton.mpr rfl
      · exact fun c member => all c (List.mem_of_mem_drop member)
    have filled : (if ((first :: more).drop (count + 1)).isEmpty then ['0'] else (first :: more).drop (count + 1)) ≠
        [] := by
      split
      · exact List.cons_ne_nil _ _
      next some => simpa using some
    refine ⟨⟨_, _, none⟩, valid_of_powerless whole fraction, .inl filled, ?_⟩
    rw [Numeral.text, Numeral.pointText, if_neg filled, Numeral.powerText, List.append_nil]

theorem exists_numeral_scientific (point : ℤ) :
    ∃ numeral : Numeral, numeral.Valid ∧ numeral.IsReal ∧ numeral.text = scientific (first :: more) point := by
  unfold scientific
  dsimp only
  generalize sized : (if (digitsOf (point - 1).natAbs).length < 2 then '0' :: digitsOf (point - 1).natAbs
    else digitsOf (point - 1).natAbs) = size
  have exponent : size ≠ [] ∧ ∀ c ∈ size, c.isDigit = true := by
    rw [← sized]
    have digits : ∀ c ∈ digitsOf (point - 1).natAbs, c.isDigit = true := fun c member => isDigit_of_mem_digitsOf member
    split
    · exact ⟨List.cons_ne_nil _ _, List.forall_mem_cons.mpr ⟨rfl, digits⟩⟩
    · exact ⟨Nat.toDigits_ne_nil, digits⟩
  have whole : Whole [first] := .inr ⟨first, [], rfl, notZero, by simpa using all first List.mem_cons_self⟩
  have fraction : ∀ c ∈ more, c.isDigit = true := fun c member => all c (List.mem_cons_of_mem _ member)
  refine ⟨⟨[first], more, some (decide (point - 1 < 0), size)⟩, ⟨whole, fraction, ?_⟩, .inr (Option.some_ne_none _), ?_⟩
  · rintro _ _ ⟨⟩
    exact exponent
  · cases more with
    | nil => simp [Numeral.text, Numeral.pointText, Numeral.powerText]
    | cons second more => simp [Numeral.text, Numeral.pointText, Numeral.powerText]

end Decimals

/-- A decimal is a numeral, with the value that the decimal has as JSON. -/
theorem exists_numeral_decimalText {digits : ℕ} (positive : 0 < digits) (power : ℤ) :
    ∃ numeral : Numeral, numeral.Valid ∧ numeral.IsReal ∧ numeral.text = decimalText digits power ∧
      numeral.value = ofDecimal false digits power := by
  obtain ⟨first, more, zeros, shown, notZero, parts⟩ := significant_digitsOf positive
  have all : ∀ c ∈ first :: more, c.isDigit = true := fun c member =>
    isDigit_of_mem_digitsOf (parts ▸ List.mem_append_left _ member)
  have written : ∃ numeral : Numeral, numeral.Valid ∧ numeral.IsReal ∧ numeral.text = decimalText digits power := by
    unfold decimalText
    dsimp only
    rw [shown]
    split
    · exact exists_numeral_positional notZero all _
    · exact exists_numeral_scientific notZero all _
  obtain ⟨numeral, valid, real, text⟩ := written
  refine ⟨numeral, valid, real, text, ?_⟩
  have ends : Ends [] := by
    rintro _ ⟨⟩
  have reading := unsignedNumber_decimalText positive power ends false
  rw [List.append_nil, ← text, unsignedNumber_numeral valid real] at reading
  exact Value.real.inj (congrArg Prod.fst (Except.ok.inj reading))

end Values

end Phrasebook.Proofs.ScriptNumbers
